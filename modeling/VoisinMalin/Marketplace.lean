import VoisinMalin.Library.Board
import VoisinMalin.Library.Run
import VoisinMalin.Agreement
import VoisinMalin.Deletion

/-! What the collection is for: a board on which neighbours post ads and keep favourites. As long as
no merge finds its document deleted, the clients with all that they have under way behave as this
board does: a published ad keeps its content until it is deleted, it does not come back, and only an
ad that is there is among anybody's favourites. -/

namespace VoisinMalin

open EventMachine World

variable {Double : Type}

/-- The fields of an ad, without the marks. -/
def content (data : Fields) : Fields := fun field => if field ∈ schemaFields then data field else none

abbrev Market := Board DocID MarkKey Fields

/-- What an event does on the board. -/
def Event.acts : Event Double → List (Board.Action DocID MarkKey Fields)
  | .apply (.setData id key) _ => [.like key id]
  | .apply (.updateData id key) _ => [.unlike key id]
  | .apply (.delete id) _ => [.remove id]
  | .apply (.addDocument id data) _ => [.post id (content data.fields)]
  | _ => []

/-- The document that a task is to add. -/
def Task.newID : Task → Option DocID
  | .write (.addDocument id _) _ => some id
  | _ => none

/-- The documents of the collection, their marks, and the IDs that are in use: an ID that is drawn is
not in use before its document has been added. -/
structure OnBoard (w : World Double) (b : Market) : Prop where
  posts : ∀ id, b.posts id = (w.ads.lookup id).map content
  likes : ∀ key id, (key, id) ∈ b.likes ↔ ∃ data, w.ads.lookup id = some data ∧ Marked key data
  used : ∀ id ∈ b.used, id ∈ w.drawn ∧ id ∉ w.pending.filterMap Task.newID
  once : (w.pending.filterMap Task.newID).Nodup
  drawn : ∀ id ∈ w.pending.filterMap Task.newID, id ∈ w.drawn

section Content

variable {data : Fields} {key : MarkKey} {field : String}

theorem content_update (data : Fields) (key : MarkKey) (value : Option Value) :
    content (Function.update data key.name value) = content data := by
  funext field
  unfold content
  split
  · rename_i hfield
    exact update_mark hfield data key value
  · rfl

theorem dictionary_none {entries : List (String × Value)}
    (h : ∀ entry ∈ entries, entry.1 ≠ field) : dictionary entries field = none := by
  induction entries with
  | nil => rfl
  | cons entry entries ih =>
    have hne : ¬field = entry.1 := fun heq => h entry List.mem_cons_self heq.symm
    rw [dictionary, List.lookup_cons]
    simp only [beq_eq_false_iff_ne.mpr hne]
    exact ih fun x hx => h x (List.mem_cons_of_mem entry hx)

/-- A new ad has no mark. -/
theorem fields_unmarked (ad : AdData) (key : MarkKey) : ¬Marked key ad.fields := by
  have hnone : ad.fields key.name = none := by
    refine dictionary_none fun entry hentry heq => key.notSchema ?_
    rw [← heq]
    simp only [List.mem_cons, List.not_mem_nil, or_false] at hentry
    rcases hentry with rfl | rfl | rfl | rfl | rfl | rfl | rfl | rfl | rfl | rfl | rfl | rfl <;>
      simp [schemaFields]
  rw [Marked, hnone]
  exact Option.some_ne_none _ ∘ Eq.symm

theorem marked_update {other : MarkKey} (data : Fields) (adds : Bool) :
    Marked other (Function.update data key.name (markValue adds)) ↔
      if other = key then adds = true else Marked other data := by
  split
  · rename_i heq
    subst heq
    exact marked_markValue
  · rename_i hne
    rw [Marked, Function.update_of_ne fun h => hne (MarkKey.eq_of_name h)]
    rfl

end Content

section Step

variable {w u : World Double} {b : Market} {e : Event Double} {id : DocID}

/-- A drawn ID is new, and an event issues at most one addition, of the document that it draws. -/
theorem issued_newID : (w.issued e).filterMap Task.newID = [] ∨
    ∃ new, e.draws = some new ∧ (w.issued e).filterMap Task.newID = [new] := by
  by_cases hpublish : ∃ dev new data, e = .publishButton dev new data
  · obtain ⟨dev, new, data, rfl⟩ := hpublish
    exact Or.inr ⟨new, rfl, rfl⟩
  · refine Or.inl (List.filterMap_eq_nil_iff.mpr fun t ht => ?_)
    cases mem_issued ht with
    | publishButton dev new data => exact absurd ⟨dev, new, data, rfl⟩ hpublish
    | _ => rfl

/-- What a step leaves of the additions under way. -/
theorem step_newID (hstep : step w e = some u) {id : DocID}
    (hid : id ∈ u.pending.filterMap Task.newID) :
    id ∈ w.pending.filterMap Task.newID ∨ e.draws = some id := by
  obtain ⟨t, ht, hadds⟩ := List.mem_filterMap.mp hid
  rcases mem_step_pending hstep ht with hold | hissued
  · exact Or.inl (List.mem_filterMap.mpr ⟨t, hold, hadds⟩)
  · rcases issued_newID (w := w) (e := e) with hnone | ⟨new, hdraws, hnew⟩
    · have hmem : id ∈ (w.issued e).filterMap Task.newID := List.mem_filterMap.mpr ⟨t, hissued, hadds⟩
      rw [hnone] at hmem
      contradiction
    · have hmem : id ∈ (w.issued e).filterMap Task.newID := List.mem_filterMap.mpr ⟨t, hissued, hadds⟩
      rw [hnew, List.mem_singleton] at hmem
      exact Or.inr (hmem ▸ hdraws)

theorem erase_newID {ts : List Task} (hts : (ts.filterMap Task.newID).Nodup) (t : Task) :
    ((ts.erase t).filterMap Task.newID).Nodup ∧
      (t ∈ ts → ∀ id, t.newID = some id → id ∉ (ts.erase t).filterMap Task.newID) := by
  refine ⟨hts.sublist (List.erase_sublist.filterMap _), fun ht id hadds => ?_⟩
  have hperm := (List.perm_cons_erase ht).filterMap Task.newID
  rw [List.filterMap_cons_some hadds] at hperm
  exact (List.nodup_cons.mp (hperm.nodup_iff.mp hts)).1

/-- The IDs under way stay distinct, and drawn. -/
theorem OnBoard.ids (h : OnBoard w b) (hstep : step w e = some u) :
    (u.pending.filterMap Task.newID).Nodup ∧ (∀ id ∈ u.pending.filterMap Task.newID, id ∈ u.drawn) ∧
      ∀ id ∈ b.used, id ∈ u.drawn ∧ id ∉ u.pending.filterMap Task.newID := by
  have hkeeps := step_keeps hstep
  refine ⟨?_, fun id hid => ?_, fun id hid => ⟨?_, fun hadded => ?_⟩⟩
  · have hrest : (((e.taken.map w.pending.erase).getD w.pending).filterMap Task.newID).Nodup := by
      cases e.taken with
      | none => exact h.once
      | some t => exact (erase_newID h.once t).1
    rw [(step_effect hstep).pending, List.filterMap_append]
    rcases issued_newID (w := w) (e := e) with hnone | ⟨new, hdraws, hnew⟩
    · rw [hnone, List.append_nil]
      exact hrest
    · rw [hnew]
      refine hrest.append (List.nodup_singleton new) fun id hid hnew' => ?_
      rw [List.mem_singleton] at hnew'
      subst hnew'
      refine hkeeps.new id hdraws (h.drawn id ?_)
      cases htaken : e.taken with
      | none => simpa [htaken] using hid
      | some t =>
        rw [htaken] at hid
        exact (List.erase_sublist.filterMap Task.newID).subset hid
  · rcases step_newID hstep hid with hold | hdraws
    · exact (hkeeps.drawn id).mpr (Or.inl (h.drawn id hold))
    · exact (hkeeps.drawn id).mpr (Or.inr hdraws)
  · exact (hkeeps.drawn id).mpr (Or.inl (h.used id hid).1)
  · rcases step_newID hstep hadded with hold | hdraws
    · exact (h.used id hid).2 hold
    · exact hkeeps.new id hdraws (h.used id hid).1

end Step

section Simulation

variable {w u : World Double} {b : Market} {e : Event Double} {id : DocID}

/-- A step that leaves the documents as they are leaves the board. -/
theorem OnBoard.of_eq (h : OnBoard w b) (hstep : step w e = some u) (hads : u.ads = w.ads) :
    OnBoard u b := by
  obtain ⟨honce, hdrawn, hused⟩ := h.ids hstep
  exact ⟨hads ▸ h.posts, hads ▸ h.likes, hused, honce, hdrawn⟩

/-- A favourite write to a document that is there sets or removes a like. -/
theorem OnBoard.mark {key : MarkKey} {c : Completion} {b' : Market} (h : OnBoard w b)
    (adds : Bool) (there : id ∈ w.ads) (hstep : step w (.apply (markWrite adds key id) c) = some u)
    (hposts : b'.posts = b.posts) (hused : b'.used = b.used)
    (hlikes : ∀ k i, (k, i) ∈ b'.likes ↔
      if i = id ∧ k = key then adds = true else (k, i) ∈ b.likes) : OnBoard u b' := by
  obtain ⟨honce, hdrawn, hids⟩ := h.ids hstep
  obtain ⟨data, hdata, hads⟩ := step_mark there hstep
  refine ⟨fun i => ?_, fun k i => ?_, hused ▸ hids, honce, hdrawn⟩
  · rw [hposts, h.posts i, hads]
    split
    · rename_i hi
      rw [hi, hdata, Option.map_some, Option.map_some, content_update]
    · rfl
  · rw [hlikes, hads]
    by_cases hi : i = id
    · simp only [hi, true_and, if_true, Option.some.injEq, exists_eq_left', marked_update]
      split
      · rfl
      · simp [h.likes, hdata]
    · simp only [hi, false_and, if_false]
      exact h.likes k i

theorem OnBoard.like {key : MarkKey} {c : Completion} (h : OnBoard w b) (there : id ∈ w.ads)
    (hstep : step w (.apply (.setData id key) c) = some u) :
    ∃ b', b.step (.like key id) = some b' ∧ OnBoard u b' := by
  have hposted : (b.posts id).isSome := by
    rw [h.posts id, Option.isSome_map, Finmap.lookup_isSome]
    exact there
  refine ⟨_, by rw [Board.step, dif_pos hposted], ?_⟩
  refine h.mark true there hstep rfl rfl fun k i => ?_
  by_cases hi : i = id ∧ k = key <;> simp [hi, and_comm]

theorem OnBoard.unlike {key : MarkKey} {c : Completion} (h : OnBoard w b)
    (hstep : step w (.apply (.updateData id key) c) = some u) :
    ∃ b', b.step (.unlike key id) = some b' ∧ OnBoard u b' := by
  refine ⟨_, rfl, ?_⟩
  by_cases there : id ∈ w.ads
  · refine h.mark false there hstep rfl rfl fun k i => ?_
    by_cases hi : i = id ∧ k = key <;> simp [hi, and_comm]
  · -- Firestore rejects the write, and nobody likes what is not there.
    have hnone : w.ads.lookup id = none := Finmap.lookup_eq_none.mpr there
    have hads : u.ads = w.ads := by
      obtain ⟨-, ⟨ads, happly, -⟩ | ⟨-, rfl⟩⟩ := step_apply hstep
      · simp [Write.apply, Write.id, hnone, Write.document] at happly
      · rfl
    have hsame := h.of_eq hstep hads
    refine ⟨hsame.posts, fun k i => ?_, hsame.used, hsame.once, hsame.drawn⟩
    rw [← hsame.likes k i]
    refine ⟨And.left, fun hlike => ⟨hlike, fun heq => ?_⟩⟩
    obtain ⟨rfl, rfl⟩ := Prod.mk.inj heq
    obtain ⟨data, hdata, -⟩ := (hsame.likes k i).mp hlike
    rw [hads, hnone] at hdata
    contradiction

/-- The documents after a write that does not look at what was there. -/
theorem step_put {wr : Write} {c : Completion} (data : Option Fields)
    (hwrite : ∀ before, wr.document before = some data)
    (hstep : step w (.apply wr c) = some u) (i : DocID) :
    u.ads.lookup i = if i = wr.id then data else w.ads.lookup i := by
  obtain ⟨-, ⟨ads, happly, rfl⟩ | ⟨happly, -⟩⟩ := step_apply hstep
  · obtain ⟨after, hafter, hads⟩ := Write.lookup_apply happly
    rw [hwrite] at hafter
    cases hafter
    exact hads i
  · rw [Write.apply, hwrite] at happly
    contradiction

theorem OnBoard.remove {c : Completion} (h : OnBoard w b)
    (hstep : step w (.apply (.delete id) c) = some u) :
    ∃ b', b.step (.remove id) = some b' ∧ OnBoard u b' := by
  obtain ⟨honce, hdrawn, hids⟩ := h.ids hstep
  have hads := step_put none (fun _ => rfl) hstep
  refine ⟨_, rfl, fun i => ?_, fun k i => ?_, hids, honce, hdrawn⟩
  · rw [hads]
    by_cases hi : i = id
    · simp [hi, Write.id]
    · simp [hi, Write.id, h.posts i]
  · rw [hads]
    by_cases hi : i = id
    · simp [hi, Write.id]
    · simp [hi, Write.id, h.likes k i]

theorem OnBoard.post {data : AdData} {c : Completion} (h : OnBoard w b)
    (hstep : step w (.apply (.addDocument id data) c) = some u) :
    ∃ b', b.step (.post id (content data.fields)) = some b' ∧ OnBoard u b' := by
  obtain ⟨honce, hdrawn, hids⟩ := h.ids hstep
  have hads := step_put (some data.fields) (fun _ => rfl) hstep
  have hmem := (step_effect hstep).taken _ rfl
  have hadded : id ∈ w.pending.filterMap Task.newID := List.mem_filterMap.mpr ⟨_, hmem, rfl⟩
  have hnew : id ∉ b.used := fun hused => (h.used id hused).2 hadded
  refine ⟨_, by rw [Board.step, if_neg hnew], fun i => ?_, fun k i => ?_, fun i hi => ?_, honce,
    hdrawn⟩
  · rw [hads]
    by_cases hi : i = id
    · simp [hi, Write.id]
    · simp [hi, Write.id, h.posts i]
  · rw [hads]
    by_cases hi : i = id
    · subst hi
      have hnot : (k, i) ∉ b.likes := fun hlike => hnew (b.posted i (b.liked k i hlike))
      simp [hnot, Write.id, fields_unmarked data k]
    · simp [hi, Write.id, h.likes k i]
  · rcases hi with rfl | hi
    · refine ⟨((step_keeps hstep).drawn i).mpr (Or.inl (h.drawn i hadded)), ?_⟩
      rw [(step_effect hstep).pending, List.filterMap_append]
      simpa [Event.taken, issued, Task.newID] using (erase_newID h.once _).2 hmem i rfl
    · exact hids i hi

/-- The clients behave as the board does, as long as each merge finds its document. -/
theorem simulates_board :
    Simulates (step : World Double → Event Double → Option (World Double)) Board.step
      MergesIntoDocument (fun _ => Event.acts) OnBoard := by
  intro w e u b h hmerge hstep
  by_cases he : ∃ wr c, e = .apply wr c
  · obtain ⟨wr, c, rfl⟩ := he
    cases wr with
    | setData id key =>
      obtain ⟨b', hb', hu⟩ := h.like (hmerge id key c rfl) hstep
      exact ⟨b', run_cons.mpr ⟨b', hb', rfl⟩, hu⟩
    | updateData id key =>
      obtain ⟨b', hb', hu⟩ := h.unlike hstep
      exact ⟨b', run_cons.mpr ⟨b', hb', rfl⟩, hu⟩
    | delete id =>
      obtain ⟨b', hb', hu⟩ := h.remove hstep
      exact ⟨b', run_cons.mpr ⟨b', hb', rfl⟩, hu⟩
    | addDocument id data =>
      obtain ⟨b', hb', hu⟩ := h.post hstep
      exact ⟨b', run_cons.mpr ⟨b', hb', rfl⟩, hu⟩
  · have hnone : e.acts = [] := by
      cases e with
      | apply wr c => exact absurd ⟨wr, c, rfl⟩ he
      | _ => rfl
    refine ⟨b, by simp only [hnone, run_nil], h.of_eq hstep ((step_effect hstep).ads fun wr c heq => ?_)⟩
    exact he ⟨wr, c, heq⟩

end Simulation

/-- The board of a collection. -/
def World.board (w : World Double) : Market where
  posts := fun id => (w.ads.lookup id).map content
  likes := {p | ∃ data, w.ads.lookup p.2 = some data ∧ Marked p.1 data}
  used := {id | id ∈ w.ads ∨ id ∈ w.drawn}
  posted := fun id h => Or.inl (by rwa [Option.isSome_map, Finmap.lookup_isSome] at h)
  liked := fun _ _ ⟨data, hdata, _⟩ => by rw [hdata]; rfl

section Run

variable {w u v x : World Double} {es fs gs : List (Event Double)} {id : DocID} {data : Fields}

theorem onBoard_start (hdrawn : ∀ id ∈ w.ads, id ∈ w.drawn) (hidle : w.pending = []) :
    OnBoard w w.board where
  posts _ := rfl
  likes _ _ := Iff.rfl
  used id hid := ⟨hid.elim (hdrawn id) fun h => h, by simp [hidle]⟩
  once := by simp [hidle]
  drawn := by simp [hidle]

/-- Whatever the clients do at the same time, the collection goes as the board on which the writes
that Firestore applies post, remove, like and unlike, one at a time. -/
theorem refines_board (hdrawn : ∀ id ∈ w.ads, id ∈ w.drawn) (hidle : w.pending = [])
    (hmerges : Along step MergesIntoDocument w es) (hrun : run step w es = some u) :
    ∃ b, run Board.step w.board (es.flatMap Event.acts) = some b ∧ OnBoard u b :=
  simulates_board.run_events (onBoard_start hdrawn hidle) hmerges hrun

theorem content_eq {data data' : Fields} (h : content data' = content data) {field : String}
    (hfield : field ∈ schemaFields) : data' field = data field := by
  have hsame := congrFun h field
  simpa only [content, if_pos hfield] using hsame

theorem along_append {C : World Double → Event Double → Prop} (h : Along step C w (es ++ fs))
    (hrun : run step w es = some u) : Along step C w es ∧ Along step C u fs := by
  induction es generalizing w with
  | nil =>
    cases hrun
    exact ⟨trivial, h⟩
  | cons e es ih =>
    obtain ⟨y, hy, hrest⟩ := run_cons.mp hrun
    obtain ⟨hfirst, hlater⟩ := ih (h y hy).2 hrest
    exact ⟨Along.cons hy (h y hy).1 hfirst, hlater⟩

/-- An ad that is in the collection at some moment keeps its content as long as it is there, and once
it has been deleted it does not come back. -/
theorem deleted_stays_deleted (hdrawn : ∀ id ∈ w.ads, id ∈ w.drawn) (hidle : w.pending = [])
    (hmerges : Along step MergesIntoDocument w (es ++ (fs ++ gs))) (hu : run step w es = some u)
    (hv : run step u fs = some v) (hx : run step v gs = some x)
    (hdata : u.ads.lookup id = some data) :
    (v.ads.lookup id = none → x.ads.lookup id = none) ∧
      ∀ data', x.ads.lookup id = some data' → ∀ field ∈ schemaFields, data' field = data field := by
  obtain ⟨hes, hlater⟩ := along_append hmerges hu
  obtain ⟨hfs, hgs⟩ := along_append hlater hv
  obtain ⟨b, -, hb⟩ := simulates_board.run_events (onBoard_start hdrawn hidle) hes hu
  obtain ⟨c, hrunc, hc⟩ := simulates_board.run_events hb hfs hv
  obtain ⟨d, hrund, hd⟩ := simulates_board.run_events hc hgs hx
  have hused : id ∈ b.used := b.posted id (by rw [hb.posts, hdata]; rfl)
  have hfirst := Board.run_used hrunc hused
  have hsecond := Board.run_used hrund hfirst.1
  rw [hb.posts, hc.posts, hdata] at hfirst
  rw [hc.posts, hd.posts] at hsecond
  constructor
  · intro hgone
    rw [hgone] at hsecond
    simpa using hsecond.2
  · intro data' hdata' field hfield
    refine content_eq ?_ hfield
    rw [hdata'] at hsecond
    have hkept := hsecond.2.resolve_right (by simp)
    rw [← hkept] at hfirst
    simpa using hfirst.2

end Run

/-- Two presses that overlap, on the board two likes of which one is made. -/
theorem refines_board_overlap : ∃ u b, run step bothLook pressesOverlap = some u ∧
    run Board.step bothLook.board (pressesOverlap.flatMap Event.acts) = some b ∧ OnBoard u b := by
  obtain ⟨u, hrun⟩ : ∃ u, run step bothLook pressesOverlap = some u := ⟨_, rfl⟩
  have hmerges : Along step MergesIntoDocument bothLook pressesOverlap := by
    iterate 6 refine Along.cons rfl (fun _ _ _ he => nomatch he) ?_
    refine Along.cons rfl (fun id key c he => ?_) ?_
    · cases he
      decide
    iterate 3 refine Along.cons rfl (fun _ _ _ he => nomatch he) ?_
    trivial
  obtain ⟨b, hb, hboard⟩ := refines_board (by decide) rfl hmerges hrun
  exact ⟨u, b, hrun, hb, hboard⟩

/-- Alice's ad, once deleted, is not there after a swipe in Home either. -/
theorem deleted_stays_deleted_velo : ∃ u x,
    run step (twoNeighbours "Velo" "Table") (deletion [1]) = some u ∧
    run step u (homeSwipe 3) = some x ∧ x.ads.lookup 1 = none := by
  obtain ⟨u, hu, hgone⟩ : ∃ u, run step (twoNeighbours "Velo" "Table") (deletion [1]) = some u ∧
      u.ads.lookup 1 = none := ⟨_, rfl, rfl⟩
  obtain ⟨x, hx⟩ : ∃ x, run step u (homeSwipe 3) = some x := by
    cases hu
    exact ⟨_, rfl⟩
  have hmerges : Along step MergesIntoDocument (twoNeighbours "Velo" "Table")
      ([] ++ (deletion [1] ++ homeSwipe 3)) := by
    iterate 8 refine Along.cons rfl (fun _ _ _ he => nomatch he) ?_
    trivial
  have hdata : (twoNeighbours "Velo" "Table").ads.lookup 1 =
      some (AdData.sample "Velo" "A" alice.mail).fields := rfl
  obtain ⟨hstays, -⟩ := deleted_stays_deleted (by decide) rfl hmerges rfl hu hx hdata
  exact ⟨u, x, hu, hx, hstays hgone⟩

end VoisinMalin
