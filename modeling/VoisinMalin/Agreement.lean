import VoisinMalin.Library.Mailboxes
import VoisinMalin.Marks

/-! The favourite button under presses that overlap. A press reads the flag of the screen when its
query is answered, and the flag changes when a write is acknowledged, so in between flag and document
differ. But the flag that the acknowledgements under way will leave agrees with the document at
every moment, and when nothing is under way any more it is the flag of the screen. -/

namespace VoisinMalin

open EventMachine World Inbox

variable {Double : Type}

/-- The flag of screen `sc` once a task under way has been delivered. -/
def delivered (sc : ScreenID) (flag : Option Bool) (t : Task) : Option Bool :=
  flagAfter sc flag (.deliver t : Event Unit)

/-- The completion of a write that `favoriteButton` issues. -/
def favouriteCompletion (adds : Bool) (sc : ScreenID) : Completion :=
  if adds then .misEnFavoris sc else .favorisRemoved sc

/-- What the presses of `favoriteButton` on a screen have under way, where `id` is the only document
of the displayed title. -/
inductive Pressed (sc : ScreenID) (title : String) (key : MarkKey) (id : DocID) : Task → Prop
  | query : Pressed sc title key id (.query ⟨title, none⟩ (.favoriteButton sc))
  | answer {ids : List DocID} (only : ∀ i ∈ ids, i = id) :
      Pressed sc title key id (.answer ids (.favoriteButton sc))
  | write (adds : Bool) :
      Pressed sc title key id (.write (markWrite adds key id) (favouriteCompletion adds sc))
  | ack (ok adds : Bool) : Pressed sc title key id (.ack ok (favouriteCompletion adds sc))

def Task.isAck : Task → Bool
  | .ack _ _ => true
  | _ => false

section Receive

variable {sc : ScreenID} {title : String} {key : MarkKey} {id : DocID} {flag : Option Bool}
  {t : Task}

theorem delivered_ack (ok adds : Bool) :
    delivered sc flag (.ack ok (favouriteCompletion adds sc)) = if ok then some adds else flag := by
  cases ok <;> cases adds <;> simp [delivered, flagAfter, favouriteCompletion]

theorem pressed_neutral (h : Pressed sc title key id t) (ht : ∀ c, t ≠ .ack true c) :
    Neutral (delivered sc) t := by
  intro flag
  cases h with
  | query | answer only | write adds => rfl
  | ack ok adds =>
    cases ok with
    | true => exact absurd rfl (ht _)
    | false => exact delivered_ack false adds

end Receive

/-- On screen `sc` with state `s`, the flag that the acknowledgements under way will leave says
whether the displayed document, `data` under `id`, has the mark of `user`. -/
structure Agrees (sc : ScreenID) (user : User) (id : DocID) (s : Screen Double) (data : Fields)
    (w : World Double) : Prop where
  screen : w.screens sc = some s
  session : w.session s.device = some user
  lookup : w.ads.lookup id = some data
  only : ∀ i d, w.ads.lookup i = some d → d K.titleField = some (.string s.demoAd.title) → i = id
  tasks : ∀ t ∈ w.pending, Pressed sc s.demoAd.title user.uid id t
  flag : settled (delivered sc) s.inFavorite w.pending = some true ↔ Marked user.uid data

/-- The events that presses on screen `sc` bring about, failures included. -/
def Event.presses (sc : ScreenID) : Event Double → Bool
  | .favoriteButton sc' => sc' == sc
  | .evaluate _ _ _ | .apply _ _ | .fail _ | .deliver _ => true
  | _ => false

/-- Only presses on screen `sc`, and acknowledgements in the order in which the writes have been
applied or have failed. -/
structure PressEvent (sc : ScreenID) (w : World Double) (e : Event Double) : Prop where
  presses : e.presses sc = true
  acks : ∀ ok c, e = .deliver (.ack ok c) → w.pending.find? Task.isAck = some (.ack ok c)

section Step

variable {sc : ScreenID} {user : User} {id : DocID} {s : Screen Double} {data : Fields}
  {w u : World Double} {e : Event Double} {t : Task}

theorem Event.presses_quiet (he : e.presses sc = true) :
    e.loads sc = none ∧ e.changesSession = false := by
  cases e <;> simp_all [Event.presses, Event.loads, Event.changesSession]

/-- The answer to a press has no other document than the displayed one. -/
theorem answered_only (hw : Agrees sc user id s data w) {k : Callback} {ids : List DocID}
    (h : step w (.evaluate ⟨s.demoAd.title, none⟩ k ids) = some u) : ∀ i ∈ ids, i = id := by
  intro i hi
  simp only [step] at h
  split at h
  · rename_i hids
    rw [← List.mem_toFinset, hids.2, Query.mem_ids] at hi
    obtain ⟨d, hd, hselects⟩ := hi
    simp only [Query.selects, Bool.and_true, whereField_iff] at hselects
    exact hw.only i d hd hselects
  · contradiction

/-- What the presses bring under way. -/
theorem issued_pressed (hw : Agrees sc user id s data w) (h : step w e = some u)
    (he : e.presses sc = true) (ht : t ∈ w.issued e) :
    Pressed sc s.demoAd.title user.uid id t := by
  have htaken := fun t' ht' => hw.tasks t' ((step_effect h).taken t' ht')
  cases mem_issued ht with
  | @favoriteButton sc' s' screen =>
    obtain rfl : sc' = sc := by simpa [Event.presses] using he
    rw [hw.screen] at screen
    cases screen
    exact .query
  | evaluate q k ids =>
    cases htaken _ rfl with
    | query => exact .answer (answered_only hw h)
  | apply wr c =>
    cases htaken _ rfl with
    | write adds => exact .ack _ adds
  | fail wr c =>
    cases htaken _ rfl with
    | write adds => exact .ack false adds
  | @misEnFavoris sc' s' ids i screen flag mem =>
    cases htaken _ rfl with
    | answer only =>
      rw [hw.screen] at screen
      cases screen
      rw [hw.session, only i mem]
      exact .write true
  | @favorisRemoved sc' s' ids i screen flag mem =>
    cases htaken _ rfl with
    | answer only =>
      rw [hw.screen] at screen
      cases screen
      rw [hw.session, only i mem]
      exact .write false
  | annonceSuprimee mem | swiped mem => cases htaken _ rfl
  | _ => simp [Event.presses] at he

theorem flagAfter_deliver (flag : Option Bool) :
    flagAfter sc flag (.deliver t : Event Double) = delivered sc flag t := by
  cases t with
  | query q k | write wr c => rfl
  | answer ids k => cases k <;> rfl
  | ack ok c => cases ok <;> cases c <;> rfl

/-- What presses issue tells the screen nothing, apart from the acknowledgement of a write that has
been applied. -/
theorem issued_neutral (hw : Agrees sc user id s data w) (h : step w e = some u)
    (he : e.presses sc = true) (hnot : ∀ wr c, e ≠ .apply wr c) (ht : t ∈ w.issued e) :
    Neutral (delivered sc) t := by
  refine pressed_neutral (issued_pressed hw h he ht) fun c hack => ?_
  cases mem_issued ht with
  | apply wr c => exact hnot wr c rfl
  | _ => simp at hack

/-- A step that changes no document leaves the flag that the screen is heading for. -/
theorem settled_step (hw : Agrees sc user id s data w) (h : step w e = some u)
    (he : PressEvent sc w e) (hnot : ∀ wr c, e ≠ .apply wr c) :
    settled (delivered sc) (flagAfter sc s.inFavorite e) u.pending =
      settled (delivered sc) s.inFavorite w.pending := by
  rw [(step_effect h).pending, settled_append,
    settled_neutral fun t ht => issued_neutral hw h he.presses hnot ht]
  have htasks := fun t ht => hw.tasks t ((step_effect h).taken t ht)
  cases e with
  | favoriteButton sc' => rfl
  | evaluate q k ids => exact settled_erase (pressed_neutral (htasks _ rfl) (by simp))
  | apply wr c => exact absurd rfl (hnot wr c)
  | fail t =>
    refine settled_erase (pressed_neutral (htasks t rfl) fun c hack => ?_)
    subst hack
    simp [step] at h
  | deliver t =>
    rw [flagAfter_deliver]
    by_cases hack : t.isAck = true
    · -- An acknowledgement is the first one under way.
      have hfirst : w.pending.find? Task.isAck = some t := by
        cases t with
        | ack ok c => exact he.acks ok c rfl
        | _ => simp [Task.isAck] at hack
      refine settled_first (fun x hx hother => ?_) hfirst
      refine pressed_neutral (hw.tasks x hx) fun c heq => ?_
      simp [heq, Task.isAck] at hother
    · have hneutral : Neutral (delivered sc) t := by
        refine pressed_neutral (htasks t rfl) fun c heq => ?_
        simp [heq, Task.isAck] at hack
      rw [hneutral]
      exact settled_erase hneutral
  | _ => simpa [Event.presses] using he.presses

theorem agrees_apply {wr : Write} {c : Completion} (hw : Agrees sc user id s data w)
    (h : step w (.apply wr c) = some u) : ∃ data', Agrees sc user id s data' u := by
  obtain ⟨hmem, hcases⟩ := step_apply h
  have hpressed := hw.tasks _ hmem
  cases hpressed with
  | write adds =>
    have hid := markWrite_id adds user.uid id
    have hneutral : Neutral (delivered sc)
        (.write (markWrite adds user.uid id) (favouriteCompletion adds sc)) := fun _ => rfl
    rcases hcases with ⟨ads, happly, rfl⟩ | ⟨happly, rfl⟩
    · obtain ⟨after, hafter, hads⟩ := Write.lookup_apply happly
      rw [hid, hw.lookup, markWrite_document] at hafter
      cases hafter
      rw [hid] at hads
      refine ⟨_, hw.screen, hw.session, (hads id).trans (if_pos rfl), fun i d hd htitle => ?_,
        fun t ht => ?_, ?_⟩
      · by_contra hi
        have hd' := hads i
        rw [if_neg hi, show ads.lookup i = some d from hd] at hd'
        exact hi (hw.only i d hd'.symm htitle)
      · rcases List.mem_append.mp ht with ht | ht
        · exact hw.tasks t (List.mem_of_mem_erase ht)
        · rw [List.mem_singleton.mp ht]
          exact .ack true adds
      · rw [settled_append, settled_cons, delivered_ack, marked_markValue]
        simp [settled]
    · rw [Write.apply, hid, hw.lookup, markWrite_document] at happly
      simp at happly

theorem agrees_step (hw : Agrees sc user id s data w) (h : step w e = some u)
    (he : PressEvent sc w e) :
    ∃ s' data', s'.demoAd = s.demoAd ∧ Agrees sc user id s' data' u := by
  by_cases happly : ∃ wr c, e = .apply wr c
  · obtain ⟨wr, c, rfl⟩ := happly
    obtain ⟨data', hdata'⟩ := agrees_apply hw h
    exact ⟨s, data', rfl, hdata'⟩
  · have hnot : ∀ wr c, e ≠ .apply wr c := fun wr c heq => happly ⟨wr, c, heq⟩
    obtain ⟨hloads, hsession⟩ := e.presses_quiet he.presses
    have hads := (step_effect h).ads hnot
    have hscreens := (step_effect h).screens sc
    rw [hloads, Option.none_or, hw.screen, Option.map_some] at hscreens
    have htasks : ∀ t ∈ u.pending, Pressed sc s.demoAd.title user.uid id t := by
      intro t ht
      rcases mem_step_pending h ht with hold | hissued
      · exact hw.tasks t hold
      · exact issued_pressed hw h he.presses hissued
    refine ⟨{ s with inFavorite := flagAfter sc s.inFavorite e }, data, rfl, hscreens, ?_,
      hads ▸ hw.lookup, hads ▸ hw.only, htasks, ?_⟩
    · rw [session_step h hsession]
      exact hw.session
    · rw [settled_step hw h he hnot]
      exact hw.flag

end Step

/-- The presses on one detail screen keep it and the document in agreement: from a state in which
its flag is the mark of the user, they lead back to such a state once nothing is under way, however
the answers, the writes and the acknowledgements interleave and whatever fails. -/
theorem presses_agree {w u : World Double} {sc : ScreenID} {s : Screen Double} {user : User}
    {id : DocID} {data : Fields} {es : List (Event Double)} (hs : w.screens sc = some s)
    (hsession : w.session s.device = some user) (hdata : w.ads.lookup id = some data)
    (hunique : ∀ i d, w.ads.lookup i = some d →
      d K.titleField = some (.string s.demoAd.title) → i = id)
    (hidle : w.pending = []) (hagree : s.inFavorite = some true ↔ Marked user.uid data)
    (hpresses : Along step (PressEvent sc) w es) (hrun : run step w es = some u)
    (hdone : u.pending = []) :
    ∃ s' data', u.screens sc = some s' ∧ s'.demoAd = s.demoAd ∧ u.ads.lookup id = some data' ∧
      (s'.inFavorite = some true ↔ Marked user.uid data') := by
  have hstart : Agrees sc user id s data w := by
    refine ⟨hs, hsession, hdata, hunique, fun t ht => by simp [hidle] at ht, ?_⟩
    rw [hidle]
    exact hagree
  obtain ⟨s', data', had, hend⟩ := hpresses.run_preserves
    (I := fun v => ∃ s' data', s'.demoAd = s.demoAd ∧ Agrees sc user id s' data' v)
    (fun v e t ⟨s', data', had, hv⟩ he hstep => by
      obtain ⟨s'', data'', had', ht⟩ := agrees_step hv hstep he
      exact ⟨s'', data'', had'.trans had, ht⟩) ⟨s, data, rfl, hstart⟩ hrun
  have hflag := hend.flag
  rw [hdone] at hflag
  exact ⟨s', data', hend.screen, had, hend.lookup, hflag⟩

/-- Two presses whose queries are both answered before the first write is acknowledged: both set the
mark, and the second write fails. -/
def pressesOverlap : List (Event Nat) :=
  [.favoriteButton 1, .favoriteButton 1, .evaluate ⟨"Velo", none⟩ (.favoriteButton 1) [1],
    .deliver (.answer [1] (.favoriteButton 1)),
    .evaluate ⟨"Velo", none⟩ (.favoriteButton 1) [1],
    .deliver (.answer [1] (.favoriteButton 1)), .apply (.setData 1 bob.uid) (.misEnFavoris 1),
    .fail (.write (.setData 1 bob.uid) (.misEnFavoris 1)),
    .deliver (.ack true (.misEnFavoris 1)), .deliver (.ack false (.misEnFavoris 1))]

theorem presses_agree_bob : ∃ u s data, run step bothLook pressesOverlap = some u ∧
    u.screens 1 = some s ∧ u.ads.lookup 1 = some data ∧
    (s.inFavorite = some true ↔ Marked bob.uid data) := by
  obtain ⟨u, hrun, hdone⟩ : ∃ u, run step bothLook pressesOverlap = some u ∧ u.pending = [] :=
    ⟨_, rfl, rfl⟩
  have hpresses : Along step (PressEvent 1) bothLook pressesOverlap := by
    iterate 8 refine Along.cons rfl ⟨rfl, fun _ _ h => nomatch h⟩ ?_
    iterate 2
      refine Along.cons rfl ⟨rfl, fun ok c h => ?_⟩ ?_
      · cases h
        rfl
    trivial
  have hunique : ∀ i d, bothLook.ads.lookup i = some d →
      d K.titleField = some (.string "Velo") → i = 1 := by
    intro i d hd _
    have hlookup := Collection.lookup_put ∅ 1 i (some (AdData.sample "Velo" "A" alice.mail).fields)
    rw [show (∅ : Collection).put 1 _ = bothLook.ads from rfl, hd] at hlookup
    by_contra hi
    simp [hi] at hlookup
  have hagree : (none : Option Bool) = some true ↔
      Marked bob.uid (AdData.sample "Velo" "A" alice.mail).fields := by
    constructor
    · intro h
      contradiction
    · intro h
      exact absurd h (Option.some_ne_none _).symm
  obtain ⟨s, data, hs, -, hdata, hflag⟩ := presses_agree rfl rfl rfl hunique rfl hagree hpresses
    hrun hdone
  exact ⟨u, s, data, hrun, hs, hdata, hflag⟩

end VoisinMalin
