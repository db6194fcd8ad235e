import VoisinMalin.Favourite
import VoisinMalin.Schema

/-! The marks of all users in one document. A favourite write changes the field of its writer and no
other, so a document that stays in the collection keeps its content through every interleaving of
the clients, and carries the mark of a user exactly when the last of that user's writes set it. -/

namespace VoisinMalin

open EventMachine World

variable {Double : Type}

/-- The document `id` holds `data`, under an ID that no document gets again. -/
structure Lasting (id : DocID) (data : Fields) (w : World Double) : Prop where
  lookup : w.ads.lookup id = some data
  drawn : id ∈ w.drawn
  added : ∀ new c, .write (.addDocument id new) c ∉ w.pending

/-- The mark that a write changes, and whether it sets it. -/
def Write.mark : Write → Option (MarkKey × Bool)
  | .setData _ key => some (key, true)
  | .updateData _ key => some (key, false)
  | .delete _ | .addDocument _ _ => none

/-- What the application of a write leaves of the document `id`, when it stays. -/
def Write.markIn (wr : Write) (id : DocID) (data : Fields) : Fields :=
  match wr.mark with
  | some (key, adds) =>
    if wr.id = id then Function.update data key.name (markValue adds) else data
  | none => data

def Event.markIn (id : DocID) (data : Fields) : Event Double → Fields
  | .apply wr _ => wr.markIn id data
  | _ => data

/-- Every event leaves the content fields of a document that stays. -/
theorem markIn_content (id : DocID) (data : Fields) (e : Event Double) {field : String}
    (hfield : field ∈ schemaFields) : e.markIn id data field = data field := by
  cases e with
  | apply wr c =>
    simp only [Event.markIn, Write.markIn]
    cases wr.mark with
    | none => rfl
    | some change =>
      simp only
      split
      · exact update_mark hfield data _ _
      · rfl
  | _ => rfl

theorem Write.markIn_of_ne {wr : Write} {id : DocID} (h : wr.id ≠ id) (data : Fields) :
    wr.markIn id data = data := by
  unfold Write.markIn
  split
  · exact if_neg h
  · rfl

section Step

variable {w u : World Double} {e : Event Double} {id : DocID} {data : Fields}

/-- A write other than an addition that leaves a document in place changes a mark of it at most. -/
theorem document_markIn {wr : Write} {after : Option Fields} (hid : wr.id = id)
    (hadd : ∀ new, wr ≠ .addDocument id new) (hdata : wr.document (some data) = some after)
    (hthere : after ≠ none) : after = some (wr.markIn id data) := by
  subst hid
  cases wr with
  | setData i key | updateData i key =>
    cases hdata
    simp [Write.markIn, Write.mark, markValue]
  | delete i =>
    cases hdata
    contradiction
  | addDocument i new => exact absurd rfl (hadd new)

theorem apply_markIn {wr : Write} {c : Completion} (hw : Lasting id data w)
    (h : step w (.apply wr c) = some u) (hthere : id ∈ u.ads) :
    u.ads.lookup id = some (wr.markIn id data) := by
  obtain ⟨hmem, ⟨ads, happly, rfl⟩ | ⟨happly, rfl⟩⟩ := step_apply h
  · obtain ⟨after, hafter, hads⟩ := Write.lookup_apply happly
    have hlookup := hads id
    split at hlookup
    · rename_i hid
      rw [← hid, hw.lookup] at hafter
      rw [hlookup]
      refine document_markIn hid.symm (fun new hwr => ?_) hafter fun hnone => ?_
      · subst hwr
        exact hw.added new c hmem
      · exact Finmap.lookup_eq_none.mp (hlookup.trans hnone) hthere
    · rename_i hid
      rw [hlookup, hw.lookup, Write.markIn_of_ne (Ne.symm hid)]
  · -- The only write that is rejected is one to a missing document.
    rw [Write.apply, Option.map_eq_none_iff] at happly
    by_cases hid : wr.id = id
    · rw [hid, hw.lookup] at happly
      cases wr <;> simp [Write.document] at happly
    · rw [hw.lookup, Write.markIn_of_ne hid]

theorem issued_add {new : AdData} {c : Completion}
    (h : .write (.addDocument id new) c ∈ w.issued e) : e.draws = some id := by
  cases mem_issued h with
  | publishButton dev id new => rfl

/-- A step that leaves a document in place changes a mark of it at most. -/
theorem lasting_step (hw : Lasting id data w) (h : step w e = some u) (hthere : id ∈ u.ads) :
    Lasting id (e.markIn id data) u := by
  refine ⟨?_, ((step_keeps h).drawn id).mpr (Or.inl hw.drawn), fun new c hmem => ?_⟩
  · by_cases he : ∃ wr c, e = .apply wr c
    · obtain ⟨wr, c, rfl⟩ := he
      exact apply_markIn hw h hthere
    · have hsame : e.markIn id data = data := by
        cases e with
        | apply wr c => exact absurd ⟨wr, c, rfl⟩ he
        | _ => rfl
      rw [(step_effect h).ads fun wr c hwr => he ⟨wr, c, hwr⟩, hw.lookup, hsame]
  · rcases mem_step_pending h hmem with hold | hissued
    · exact hw.added new c hold
    · exact (step_keeps h).new id (issued_add hissued) hw.drawn

/-- A document that stays in the collection keeps its content through every run. -/
theorem lasting_run {es : List (Event Double)} (hw : Lasting id data w)
    (hthere : Always step (fun v => id ∈ v.ads) w es) (hrun : run step w es = some u) :
    ∃ data', Lasting id data' u ∧ ∀ field ∈ schemaFields, data' field = data field := by
  induction es generalizing w data with
  | nil =>
    cases hrun
    exact ⟨data, hw, fun _ _ => rfl⟩
  | cons e es ih =>
    obtain ⟨v, hv, hrest⟩ := run_cons.mp hrun
    have hlater := hthere.2 v hv
    obtain ⟨data', hdata', hsame⟩ := ih (lasting_step hw hv hlater.first) hlater hrest
    exact ⟨data', hdata', fun field hfield =>
      (hsame field hfield).trans (markIn_content id data e hfield)⟩

end Step

/-- A user signs in or out. -/
def Event.changesSession : Event Double → Bool
  | .signIn _ _ | .signOut _ => true
  | _ => false

/-- The user on whose device a write is acknowledged. -/
def World.writer (w : World Double) : Completion → Option User
  | .misEnFavoris sc | .favorisRemoved sc | .annonceSuprimee sc =>
    (w.screens sc).bind fun s => w.session s.device
  | .commit dev | .homeCommit dev | .annonceSauvegardee dev => w.session dev

/-- A favourite write of `user` to the document `id`, by whether it sets the mark. -/
def World.writeBy (w : World Double) (user : User) (id : DocID) : Event Double → Option Bool
  | .apply wr c => if w.writer c = some user ∧ wr.id = id then wr.mark.map Prod.snd else none
  | _ => none

/-- The favourite writes of `user` that a run applies to the document `id`. -/
def writesBy (user : User) (id : DocID) : World Double → List (Event Double) → List Bool
  | _, [] => []
  | w, e :: es =>
    (w.writeBy user id e).toList ++ ((step w e).map fun u => writesBy user id u es).getD []

/-- Every device has a user, and the favourite writes under way are about the marks of the users who
have issued them. -/
structure OwnMarks (w : World Double) : Prop where
  signedIn : ∀ dev, ∃ user, w.session dev = some user
  writes : ∀ wr c, .write wr c ∈ w.pending → ∀ change, wr.mark = some change →
    ∃ user, w.writer c = some user ∧ change.1 = user.uid

section Writer

variable {w u : World Double} {e : Event Double} {c : Completion} {user : User}

theorem writer_session (h : w.writer c = some user) : ∃ dev, w.session dev = some user := by
  cases c with
  | misEnFavoris sc | favorisRemoved sc | annonceSuprimee sc =>
    obtain ⟨s, -, hs⟩ := Option.bind_eq_some_iff.mp h
    exact ⟨s.device, hs⟩
  | commit dev | homeCommit dev | annonceSauvegardee dev => exact ⟨dev, h⟩

theorem session_step (h : step w e = some u) (he : e.changesSession = false) :
    u.session = w.session := by
  rw [(step_keeps h).session]
  cases e with
  | signIn dev user | signOut dev => contradiction
  | _ => rfl

theorem writer_step (h : step w e = some u) (he : e.changesSession = false)
    (hc : w.writer c = some user) : u.writer c = some user := by
  have hsession := session_step h he
  cases c with
  | misEnFavoris sc | favorisRemoved sc | annonceSuprimee sc =>
    obtain ⟨s, hs, huser⟩ := Option.bind_eq_some_iff.mp hc
    obtain ⟨flag, hflag⟩ := step_keeps_screen h hs
    simp only [writer, hflag, Option.bind_some, hsession, huser]
  | commit dev | homeCommit dev | annonceSauvegardee dev =>
    simp only [writer, hsession]
    exact hc

/-- A favourite write is issued by the user whose mark it changes. -/
theorem issued_mark (hw : OwnMarks w) {wr : Write} {change : MarkKey × Bool}
    (hwrite : .write wr c ∈ w.issued e) (hmark : wr.mark = some change) :
    ∃ user, w.writer c = some user ∧ change.1 = user.uid := by
  cases mem_issued hwrite with
  | @misEnFavoris sc s ids i screen flag mem | @favorisRemoved sc s ids i screen flag mem =>
    obtain ⟨user, huser⟩ := hw.signedIn s.device
    cases hmark
    exact ⟨user, by simp [writer, screen, huser], by rw [huser]; rfl⟩
  | @swiped dev ids i mem =>
    obtain ⟨user, huser⟩ := hw.signedIn dev
    cases hmark
    exact ⟨user, huser, by rw [huser]; rfl⟩
  | homeCommit | publishButton | annonceSuprimee => contradiction

theorem ownMarks_step (hw : OwnMarks w) (h : step w e = some u) (he : e.changesSession = false) :
    OwnMarks u := by
  refine ⟨fun dev => ?_, fun wr c hwrite change hmark => ?_⟩
  · rw [session_step h he]
    exact hw.signedIn dev
  · have hwriter : ∃ user, w.writer c = some user ∧ change.1 = user.uid := by
      rcases mem_step_pending h hwrite with hold | hissued
      · exact hw.writes wr c hold change hmark
      · exact issued_mark hw hissued hmark
    obtain ⟨user, huser, hkey⟩ := hwriter
    exact ⟨user, writer_step h he huser, hkey⟩

end Writer

theorem MarkKey.eq_of_name {key key' : MarkKey} (h : key.name = key'.name) : key = key' := by
  cases key
  cases key'
  cases h
  rfl

section LastWrite

variable {w u : World Double} {e : Event Double} {id : DocID} {data : Fields} {user : User}

theorem marked_markValue {key : MarkKey} {adds : Bool} :
    Marked key (Function.update data key.name (markValue adds)) ↔ adds = true := by
  cases adds <;> simp [Marked, markValue]

/-- A step changes the mark of a user only by a write of that user. -/
theorem marked_step (hw : OwnMarks w) (h : step w e = some u)
    (hdistinct : ∀ dev v, w.session dev = some v → v.uid = user.uid → v = user) :
    Marked user.uid (e.markIn id data) ↔
      w.writeBy user id e = some true ∨ (w.writeBy user id e = none ∧ Marked user.uid data) := by
  cases e with
  | apply wr c =>
    have hmem := (step_apply h).1
    by_cases hid : wr.id = id
    swap
    · simp [Event.markIn, Write.markIn_of_ne hid, writeBy, hid]
    cases hmark : wr.mark with
    | none => simp [Event.markIn, Write.markIn, writeBy, hmark]
    | some change =>
      obtain ⟨v, hv, hkey⟩ := hw.writes wr c hmem change hmark
      have hdata : (Event.apply wr c : Event Double).markIn id data =
          Function.update data v.uid.name (markValue change.2) := by
        simp [Event.markIn, Write.markIn, hmark, hid, hkey]
      rw [hdata]
      by_cases huser : v = user
      · subst huser
        simp [writeBy, hv, hid, hmark, marked_markValue]
      · have hother : user.uid.name ≠ v.uid.name := by
          intro hname
          obtain ⟨dev, hdev⟩ := writer_session hv
          exact huser (hdistinct dev v hdev (MarkKey.eq_of_name hname.symm))
        simp [writeBy, hv, huser, Marked, Function.update_of_ne hother]
  | _ => simp [Event.markIn, writeBy]

/-- After a run, a user's mark is what the last of that user's writes made it. -/
theorem marked_run {es : List (Event Double)} (hw : OwnMarks w) (hlasting : Lasting id data w)
    (hthere : Always step (fun v => id ∈ v.ads) w es)
    (hsession : ∀ e ∈ es, e.changesSession = false)
    (hdistinct : ∀ dev v, w.session dev = some v → v.uid = user.uid → v = user)
    (hrun : run step w es = some u) : ∃ data', Lasting id data' u ∧
      (Marked user.uid data' ↔ (writesBy user id w es).getLast? = some true ∨
        (writesBy user id w es = [] ∧ Marked user.uid data)) := by
  induction es generalizing w data with
  | nil =>
    cases hrun
    exact ⟨data, hlasting, by simp [writesBy]⟩
  | cons e es ih =>
    obtain ⟨v, hv, hrest⟩ := run_cons.mp hrun
    have he := hsession e (by simp)
    have hlater := hthere.2 v hv
    have hmarked : Marked user.uid (e.markIn id data) ↔ w.writeBy user id e = some true ∨
        (w.writeBy user id e = none ∧ Marked user.uid data) := marked_step hw hv hdistinct
    rw [← session_step hv he] at hdistinct
    obtain ⟨data', hdata', hlast⟩ := ih (ownMarks_step hw hv he)
      (lasting_step hlasting hv hlater.first) hlater (fun f hf => hsession f (by simp [hf]))
      hdistinct hrest
    refine ⟨data', hdata', hlast.trans ?_⟩
    simp only [writesBy, hv, Option.map_some, Option.getD_some, hmarked]
    cases hby : w.writeBy user id e with
    | none => simp
    | some adds =>
      cases hafter : writesBy user id v es with
      | nil => simp
      | cons b bs => simp

end LastWrite

/-- No favourite is lost between users: a document that stays in the collection keeps its content,
and carries a user's mark after a run of any clients exactly when the last write of that user
applied to it set the mark, or there was none and the mark was there at the start. -/
theorem lastWrite_decides {w u : World Double} {es : List (Event Double)} {id : DocID}
    {data : Fields} (hdata : w.ads.lookup id = some data) (hdrawn : ∀ i ∈ w.ads, i ∈ w.drawn)
    (hidle : w.pending = []) (hsigned : ∀ dev, ∃ user, w.session dev = some user)
    (hthere : Always step (fun v => id ∈ v.ads) w es)
    (hsession : ∀ e ∈ es, e.changesSession = false) (hrun : run step w es = some u) :
    ∃ data', u.ads.lookup id = some data' ∧
      (∀ field ∈ schemaFields, data' field = data field) ∧
      ∀ user, (∀ dev v, w.session dev = some v → v.uid = user.uid → v = user) →
        (Marked user.uid data' ↔ (writesBy user id w es).getLast? = some true ∨
          (writesBy user id w es = [] ∧ Marked user.uid data)) := by
  have hlasting : Lasting id data w := ⟨hdata,
    hdrawn id (Finmap.mem_of_lookup_eq_some hdata), fun new c h => by simp [hidle] at h⟩
  have hown : OwnMarks w := ⟨hsigned, fun wr c h => by simp [hidle] at h⟩
  obtain ⟨data', hdata', hcontent⟩ := lasting_run hlasting hthere hrun
  refine ⟨data', hdata'.lookup, hcontent, fun user hdistinct => ?_⟩
  obtain ⟨data'', hdata'', hmarked⟩ := marked_run hown hlasting hthere hsession hdistinct hrun
  have hsame : data'' = data' :=
    Option.some.inj (hdata''.lookup.symm.trans hdata'.lookup)
  rw [← hsame]
  exact hmarked

/-- Alice and Bob press at the same time, and Alice then swipes the ad out of her favourites. -/
def pressesCross : List (Event Nat) :=
  [.favoriteButton 0, .favoriteButton 1, .evaluate ⟨"Velo", none⟩ (.favoriteButton 0) [1],
    .evaluate ⟨"Velo", none⟩ (.favoriteButton 1) [1],
    .deliver (.answer [1] (.favoriteButton 0)), .deliver (.answer [1] (.favoriteButton 1)),
    .apply (.setData 1 bob.uid) (.misEnFavoris 1), .apply (.setData 1 alice.uid) (.misEnFavoris 0),
    .commit 0 ((AdData.sample "Velo" "A" alice.mail).toAd 0),
    .evaluate ⟨"Velo", none⟩ (.commit 0) [1], .deliver (.answer [1] (.commit 0)),
    .apply (.updateData 1 alice.uid) (.commit 0)]

/-- Alice's swipe leaves Bob's mark. -/
theorem bob_stays_marked : ∃ u data, run step bothLook pressesCross = some u ∧
    u.ads.lookup 1 = some data ∧ Marked bob.uid data ∧ ¬Marked alice.uid data := by
  obtain ⟨u, hrun⟩ : ∃ u, run step bothLook pressesCross = some u := ⟨_, rfl⟩
  have hthere : Always step (fun v => 1 ∈ v.ads) bothLook pressesCross := by
    iterate 12 refine Always.cons rfl (by decide) ?_
    exact Always.nil (by decide)
  have hsigned : ∀ dev, ∃ user, bothLook.session dev = some user := by
    intro dev
    by_cases hdev : dev = 0
    · exact ⟨alice, if_pos hdev⟩
    · exact ⟨bob, if_neg hdev⟩
  have hdistinct : ∀ user ∈ [alice, bob], ∀ dev v, bothLook.session dev = some v →
      v.uid = user.uid → v = user := by
    intro user huser dev v hv huid
    simp only [bothLook] at hv
    split at hv <;> cases hv <;> revert huid user <;> decide
  obtain ⟨data, hdata, -, hmarks⟩ := lastWrite_decides rfl (by decide) rfl hsigned hthere
    (by decide) hrun
  refine ⟨u, data, hrun, hdata, (hmarks bob (hdistinct bob (by simp))).mpr (Or.inl rfl), ?_⟩
  rw [hmarks alice (hdistinct alice (by simp))]
  rintro (hset | ⟨hnone, -⟩) <;> contradiction

end VoisinMalin
