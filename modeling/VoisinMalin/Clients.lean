import VoisinMalin.Library.Run
import VoisinMalin.Firestore

/-! The clients of the `ads` collection: any number of devices, each with its session, the detail
screens that they have loaded, and the queries, answers, writes and acknowledgements under way.
Each event is a user action on one device, the evaluation of a query or the application of a write
by Firestore, the failure of one of these, or a callback on the main queue of its device. -/

namespace VoisinMalin

abbrev ScreenID := Nat

/-- A DetailViewController instance; the label shows the title of `demoAd`. -/
structure Screen (Double : Type) where
  device : DeviceID
  demoAd : DefaultAds Double
  inFavorite : Option Bool
deriving DecidableEq

inductive Callback where
  | checkFavorites (sc : ScreenID)
  | favoriteButton (sc : ScreenID)
  | delButtonPressed (sc : ScreenID)
  | commit (dev : DeviceID) -- FavoriteListController's swipe
deriving DecidableEq

inductive Completion where
  | misEnFavoris (sc : ScreenID)
  | favorisRemoved (sc : ScreenID)
  | annonceSuprimee (sc : ScreenID)
  | commit (dev : DeviceID)
  | homeCommit (dev : DeviceID)
  | annonceSauvegardee (dev : DeviceID)
deriving DecidableEq

/-- An asynchronous operation under way, by the point that it has reached. -/
inductive Task where
  | query (q : Query) (k : Callback)
  | answer (ids : List DocID) (k : Callback)
  | write (wr : Write) (c : Completion)
  | ack (ok : Bool) (c : Completion)
deriving DecidableEq

structure World (Double : Type) where
  ads : Collection
  session : DeviceID → Option User
  screens : ScreenID → Option (Screen Double)
  pending : List Task
  drawn : Finset DocID -- the document IDs in use, which Firestore never draws again

inductive Event (Double : Type) where
  | viewDidLoad (sc : ScreenID) (dev : DeviceID) (ad : DefaultAds Double)
  | viewDidAppear (sc : ScreenID)
  | favoriteButton (sc : ScreenID)
  | delButtonPressed (sc : ScreenID)
  | commit (dev : DeviceID) (favoriteAd : DefaultAds Double)
  | homeCommit (dev : DeviceID) (id : DocID)
  | publishButton (dev : DeviceID) (id : DocID) (data : AdData)
  | signIn (dev : DeviceID) (user : User)
  | signOut (dev : DeviceID)
  | evaluate (q : Query) (k : Callback) (ids : List DocID)
  | apply (wr : Write) (c : Completion)
  | fail (t : Task)
  | deliver (t : Task)
deriving DecidableEq

variable {Double : Type}

namespace World

def issue (w : World Double) (ts : List Task) : World Double :=
  { w with pending := w.pending ++ ts }

def take (w : World Double) (t : Task) : Option (World Double) :=
  if t ∈ w.pending then some { w with pending := w.pending.erase t } else none

def setInFavorite (w : World Double) (sc : ScreenID) (b : Bool) : World Double :=
  { w with
    screens := Function.update w.screens sc
      ((w.screens sc).map fun s => { s with inFavorite := some b }) }

/-- The writes of `favoriteButton` for the documents `ids`: the loop reads `inFavorite`, which only
the completions of its writes change, and the session when the answer arrives. -/
def favoriteWrites (s : Screen Double) (user : Option User) (sc : ScreenID) (ids : List DocID) :
    List Task :=
  ids.map fun id =>
    if s.inFavorite ≠ some true then
      .write (.setData id (markOrUnknown user)) (.misEnFavoris sc)
    else
      .write (.updateData id (markOrUnknown user)) (.favorisRemoved sc)

/-- The callback of a query that has been answered. -/
def answered (w : World Double) (ids : List DocID) : Callback → World Double
  -- The loop sets the flag once for each document and leaves it when there is none.
  | .checkFavorites sc => ids.foldl (fun u _ => u.setInFavorite sc true) w
  | .favoriteButton sc =>
    match w.screens sc with
    | some s => w.issue (favoriteWrites s (w.session s.device) sc ids)
    | none => w
  | .delButtonPressed sc => w.issue (ids.map fun id => .write (.delete id) (.annonceSuprimee sc))
  | .commit dev =>
    w.issue (ids.map fun id => .write (.updateData id (markOrUnknown (w.session dev))) (.commit dev))

/-- The completion of a write. Those that only navigate or reload a table leave the world as it
is. -/
def completed (w : World Double) (ok : Bool) : Completion → World Double
  | .misEnFavoris sc => if ok then w.setInFavorite sc true else w
  | .favorisRemoved sc => if ok then w.setInFavorite sc false else w
  | .annonceSuprimee _ | .commit _ | .homeCommit _ | .annonceSauvegardee _ => w

def applyWrite (w : World Double) (wr : Write) (c : Completion) : World Double :=
  match wr.apply w.ads with
  | some ads => { w with ads := ads }.issue [.ack true c]
  | none => w.issue [.ack false c]

end World

open World

def World.step (w : World Double) : Event Double → Option (World Double)
  | .viewDidLoad sc dev ad =>
    if (w.screens sc).isSome then none
    else some { w with screens := Function.update w.screens sc (some ⟨dev, ad, none⟩) }
  | .viewDidAppear sc => (w.screens sc).map fun s =>
    w.issue [.query ⟨s.demoAd.title, some (markOrOups (w.session s.device))⟩ (.checkFavorites sc)]
  | .favoriteButton sc => (w.screens sc).map fun s =>
    w.issue [.query ⟨s.demoAd.title, none⟩ (.favoriteButton sc)]
  | .delButtonPressed sc => (w.screens sc).map fun s =>
    w.issue [.query ⟨s.demoAd.title, none⟩ (.delButtonPressed sc)]
  | .commit dev favoriteAd => some (w.issue [.query ⟨favoriteAd.title, none⟩ (.commit dev)])
  -- `document()` draws a new ID, which no document has.
  | .homeCommit dev id =>
    if id ∈ w.drawn then none
    else some ({ w with drawn := insert id w.drawn }.issue [.write (.delete id) (.homeCommit dev)])
  | .publishButton dev id data =>
    if id ∈ w.drawn then none
    else some ({ w with drawn := insert id w.drawn }.issue
      [.write (.addDocument id data) (.annonceSauvegardee dev)])
  | .signIn dev user => some { w with session := Function.update w.session dev (some user) }
  | .signOut dev => some { w with session := Function.update w.session dev none }
  | .evaluate q k ids =>
    if ids.Nodup ∧ ids.toFinset = q.ids w.ads then
      (w.take (.query q k)).map fun u => u.issue [.answer ids k]
    else none
  | .apply wr c => (w.take (.write wr c)).map fun u => u.applyWrite wr c
  -- The callback of a failed query only prints the error.
  | .fail (.query q k) => w.take (.query q k)
  | .fail (.write wr c) => (w.take (.write wr c)).map fun u => u.issue [.ack false c]
  | .deliver (.answer ids k) => (w.take (.answer ids k)).map fun u => u.answered ids k
  | .deliver (.ack ok c) => (w.take (.ack ok c)).map fun u => u.completed ok c
  | .fail (.answer _ _) | .fail (.ack _ _) | .deliver (.query _ _) | .deliver (.write _ _) => none

namespace World

variable {w u : World Double} {t : Task} {ts : List Task} {sc : ScreenID} {b : Bool}

@[simp] theorem issue_ads : (w.issue ts).ads = w.ads := rfl
@[simp] theorem issue_screens : (w.issue ts).screens = w.screens := rfl
@[simp] theorem issue_pending : (w.issue ts).pending = w.pending ++ ts := rfl

theorem take_eq_some : w.take t = some u ↔
    t ∈ w.pending ∧ u = { w with pending := w.pending.erase t } := by
  rw [take, Option.ite_none_right_eq_some, Option.some.injEq, eq_comm (b := u)]

theorem setInFavorite_idem : (w.setInFavorite sc b).setInFavorite sc b = w.setInFavorite sc b := by
  simp [setInFavorite, Function.comp_def]

/-- The loop over the answer to a check sets the flag when there is a document at all. -/
theorem answered_check (ids : List DocID) :
    w.answered ids (.checkFavorites sc) = if ids = [] then w else w.setInFavorite sc true := by
  simp only [answered]
  induction ids generalizing w with
  | nil => rfl
  | cons id ids ih =>
    rw [List.foldl_cons, ih, setInFavorite_idem, ite_self, if_neg (List.cons_ne_nil id ids)]

/-- The callback of a query changes no document. -/
theorem answered_ads (ids : List DocID) (k : Callback) : (w.answered ids k).ads = w.ads := by
  cases k with
  | checkFavorites sc =>
    rw [answered_check]
    split <;> rfl
  | favoriteButton sc =>
    simp only [answered]
    split <;> rfl
  | delButtonPressed sc | commit dev => rfl

/-- The completion of a write changes no document. -/
theorem completed_ads (ok : Bool) (c : Completion) : (w.completed ok c).ads = w.ads := by
  cases c with
  | misEnFavoris sc | favorisRemoved sc =>
    simp only [completed]
    split <;> rfl
  | annonceSuprimee sc | commit dev | homeCommit dev | annonceSauvegardee dev => rfl

theorem completed_pending (ok : Bool) (c : Completion) :
    (w.completed ok c).pending = w.pending := by
  cases c with
  | misEnFavoris sc | favorisRemoved sc =>
    simp only [completed]
    split <;> rfl
  | annonceSuprimee sc | commit dev | homeCommit dev | annonceSauvegardee dev => rfl

theorem applyWrite_some {wr : Write} {c : Completion} {ads : Collection}
    (h : wr.apply w.ads = some ads) :
    w.applyWrite wr c = { w with ads := ads, pending := w.pending ++ [.ack true c] } := by
  simp [applyWrite, h, issue]

theorem applyWrite_none {wr : Write} {c : Completion} (h : wr.apply w.ads = none) :
    w.applyWrite wr c = { w with pending := w.pending ++ [.ack false c] } := by
  simp [applyWrite, h, issue]

end World

/-- The application of a write takes it from what is under way. The collection is the one after the
write, or stays when the write is rejected. -/
theorem step_apply {w u : World Double} {wr : Write} {c : Completion}
    (h : step w (.apply wr c) = some u) :
    .write wr c ∈ w.pending ∧
      ((∃ ads, wr.apply w.ads = some ads ∧ u = { w with
          ads := ads, pending := w.pending.erase (.write wr c) ++ [.ack true c] }) ∨
        (wr.apply w.ads = none ∧ u = { w with
          pending := w.pending.erase (.write wr c) ++ [.ack false c] })) := by
  obtain ⟨v, hv, rfl⟩ := Option.map_eq_some_iff.mp h
  obtain ⟨hmem, rfl⟩ := take_eq_some.mp hv
  refine ⟨hmem, ?_⟩
  cases hw : wr.apply w.ads with
  | some ads => exact Or.inl ⟨ads, rfl, applyWrite_some hw⟩
  | none => exact Or.inr ⟨rfl, applyWrite_none hw⟩

/-- The task that an event takes from what is under way. -/
def Event.taken : Event Double → Option Task
  | .evaluate q k _ => some (.query q k)
  | .apply wr c => some (.write wr c)
  | .fail t | .deliver t => some t
  | _ => none

/-- The writes that the callback of a query issues. -/
def World.answerWrites (w : World Double) (ids : List DocID) : Callback → List Task
  | .checkFavorites _ => []
  | .favoriteButton sc =>
    ((w.screens sc).map fun s => favoriteWrites s (w.session s.device) sc ids).getD []
  | .delButtonPressed sc => ids.map fun id => .write (.delete id) (.annonceSuprimee sc)
  | .commit dev =>
    ids.map fun id => .write (.updateData id (markOrUnknown (w.session dev))) (.commit dev)

/-- The tasks that an event adds to what is under way. -/
def World.issued (w : World Double) : Event Double → List Task
  | .viewDidAppear sc => ((w.screens sc).map fun s => .query
      ⟨s.demoAd.title, some (markOrOups (w.session s.device))⟩ (.checkFavorites sc)).toList
  | .favoriteButton sc =>
    ((w.screens sc).map fun s => .query ⟨s.demoAd.title, none⟩ (.favoriteButton sc)).toList
  | .delButtonPressed sc =>
    ((w.screens sc).map fun s => .query ⟨s.demoAd.title, none⟩ (.delButtonPressed sc)).toList
  | .commit dev favoriteAd => [.query ⟨favoriteAd.title, none⟩ (.commit dev)]
  | .homeCommit dev id => [.write (.delete id) (.homeCommit dev)]
  | .publishButton dev id data => [.write (.addDocument id data) (.annonceSauvegardee dev)]
  | .evaluate _ k ids => [.answer ids k]
  | .apply wr c => [.ack (wr.apply w.ads).isSome c]
  | .fail (.write _ c) => [.ack false c]
  | .deliver (.answer ids k) => w.answerWrites ids k
  | _ => []

namespace World

theorem setInFavorite_screens (w : World Double) (sc sc' : ScreenID) (b : Bool) :
    (w.setInFavorite sc' b).screens sc = (w.screens sc).map fun s =>
      { s with inFavorite := if sc = sc' then some b else s.inFavorite } := by
  by_cases h : sc = sc'
  · subst h
    simp [setInFavorite]
  · simp [setInFavorite, h]

theorem checked_screens (w : World Double) (sc sc' : ScreenID) (ids : List DocID) :
    (w.answered ids (.checkFavorites sc')).screens sc = (w.screens sc).map fun s =>
      { s with inFavorite := if sc = sc' ∧ ids ≠ [] then some true else s.inFavorite } := by
  rw [answered_check]
  split
  · simp [*]
  · simp [setInFavorite_screens, *]

theorem answered_pending (w : World Double) (ids : List DocID) (k : Callback) :
    (w.answered ids k).pending = w.pending ++ w.answerWrites ids k := by
  cases k with
  | checkFavorites sc =>
    rw [answered_check, answerWrites, List.append_nil]
    split <;> rfl
  | favoriteButton sc =>
    simp only [answered, answerWrites]
    cases w.screens sc <;> simp
  | delButtonPressed sc | commit dev => rfl

end World

def Event.loads (sc : ScreenID) : Event Double → Option (Screen Double)
  | .viewDidLoad sc' dev ad => if sc = sc' then some ⟨dev, ad, none⟩ else none
  | _ => none

/-- The flag of screen `sc` after an event, from the messages that reach the screen: the answer to
its check, and the acknowledgements of its writes. -/
def flagAfter (sc : ScreenID) (flag : Option Bool) : Event Double → Option Bool
  | .viewDidLoad sc' _ _ => if sc = sc' then none else flag
  | .deliver (.answer ids (.checkFavorites sc')) =>
    if sc = sc' ∧ ids ≠ [] then some true else flag
  | .deliver (.ack true (.misEnFavoris sc')) => if sc = sc' then some true else flag
  | .deliver (.ack true (.favorisRemoved sc')) => if sc = sc' then some false else flag
  | _ => flag

/-- What a step does: the task that it takes from what is under way and those that it adds, what
becomes of the documents, and which screen it loads or tells a flag. -/
structure World.Effect (w u : World Double) (e : Event Double) : Prop where
  taken : ∀ t, e.taken = some t → t ∈ w.pending
  pending : u.pending = (e.taken.map w.pending.erase).getD w.pending ++ w.issued e
  ads : (∀ wr c, e ≠ .apply wr c) → u.ads = w.ads
  loads : ∀ sc s, e.loads sc = some s → w.screens sc = none
  screens : ∀ sc, u.screens sc = (e.loads sc).or ((w.screens sc).map fun s =>
    { s with inFavorite := flagAfter sc s.inFavorite e })

theorem step_effect {w u : World Double} {e : Event Double} (h : step w e = some u) :
    w.Effect u e := by
  cases e with
  | viewDidLoad sc dev ad =>
    simp only [step] at h
    split at h
    · contradiction
    · rename_i hnew
      cases h
      refine ⟨by simp [Event.taken], by simp [Event.taken, issued], fun _ => rfl, ?_, ?_⟩
      · intro sc' s hloads
        simp only [Event.loads] at hloads
        split at hloads
        · rename_i hsc
          rw [hsc]
          simpa using hnew
        · contradiction
      · intro sc'
        by_cases hsc : sc' = sc
        · subst hsc
          simp [Event.loads]
        · simp [Event.loads, flagAfter, hsc]
  | viewDidAppear sc | favoriteButton sc | delButtonPressed sc =>
    obtain ⟨s, hs, rfl⟩ := Option.map_eq_some_iff.mp h
    constructor <;> simp [Event.taken, issued, Event.loads, flagAfter, hs]
  | commit dev ad | signIn dev user | signOut dev =>
    cases h
    constructor <;> simp [Event.taken, issued, Event.loads, flagAfter]
  | homeCommit dev id | publishButton dev id data =>
    simp only [step] at h
    split at h
    · contradiction
    · cases h
      constructor <;> simp [Event.taken, issued, Event.loads, flagAfter]
  | evaluate q k ids =>
    simp only [step] at h
    split at h
    · obtain ⟨v, hv, rfl⟩ := Option.map_eq_some_iff.mp h
      obtain ⟨hmem, rfl⟩ := take_eq_some.mp hv
      constructor <;> simp [Event.taken, issued, Event.loads, flagAfter, hmem]
    · contradiction
  | apply wr c =>
    obtain ⟨hmem, ⟨ads, happly, rfl⟩ | ⟨happly, rfl⟩⟩ := step_apply h <;>
      constructor <;> simp [Event.taken, issued, Event.loads, flagAfter, hmem, happly]
  | fail t =>
    cases t with
    | query q k =>
      obtain ⟨hmem, rfl⟩ := take_eq_some.mp h
      constructor <;> simp [Event.taken, issued, Event.loads, flagAfter, hmem]
    | write wr c =>
      obtain ⟨v, hv, rfl⟩ := Option.map_eq_some_iff.mp h
      obtain ⟨hmem, rfl⟩ := take_eq_some.mp hv
      constructor <;> simp [Event.taken, issued, Event.loads, flagAfter, hmem]
    | answer ids k | ack ok c => contradiction
  | deliver t =>
    cases t with
    | query q k | write wr c => contradiction
    | answer ids k =>
      obtain ⟨v, hv, rfl⟩ := Option.map_eq_some_iff.mp h
      obtain ⟨hmem, rfl⟩ := take_eq_some.mp hv
      refine ⟨by simp [Event.taken, hmem], ?_, fun _ => answered_ads ids k,
        by simp [Event.loads], fun sc => ?_⟩
      · rw [answered_pending]
        cases k <;> rfl
      · cases k with
        | checkFavorites sc' => simp [checked_screens, Event.loads, flagAfter]
        | favoriteButton sc' =>
          simp only [answered]
          split <;> simp [Event.loads, flagAfter]
        | delButtonPressed sc' | commit dev => simp [answered, Event.loads, flagAfter]
    | ack ok c =>
      obtain ⟨v, hv, rfl⟩ := Option.map_eq_some_iff.mp h
      obtain ⟨hmem, rfl⟩ := take_eq_some.mp hv
      refine ⟨by simp [Event.taken, hmem], by simp [completed_pending, Event.taken, issued],
        fun _ => completed_ads ok c, by simp [Event.loads], fun sc => ?_⟩
      cases ok <;> cases c <;> simp [completed, setInFavorite_screens, Event.loads, flagAfter]

/-- A step changes the flag of a loaded screen at most. -/
theorem step_keeps_screen {w u : World Double} {e : Event Double} {sc : ScreenID}
    {s : Screen Double} (h : step w e = some u) (hs : w.screens sc = some s) :
    ∃ flag, u.screens sc = some { s with inFavorite := flag } := by
  have hscreens := (step_effect h).screens sc
  cases hloads : e.loads sc with
  | some loaded =>
    rw [(step_effect h).loads sc loaded hloads] at hs
    contradiction
  | none =>
    rw [hloads, Option.none_or, hs, Option.map_some] at hscreens
    exact ⟨_, hscreens⟩

/-- What each event issues, task by task. -/
inductive World.Issues (w : World Double) : Event Double → Task → Prop
  | viewDidAppear {sc : ScreenID} {s : Screen Double} (screen : w.screens sc = some s) :
      w.Issues (.viewDidAppear sc)
        (.query ⟨s.demoAd.title, some (markOrOups (w.session s.device))⟩ (.checkFavorites sc))
  | favoriteButton {sc : ScreenID} {s : Screen Double} (screen : w.screens sc = some s) :
      w.Issues (.favoriteButton sc) (.query ⟨s.demoAd.title, none⟩ (.favoriteButton sc))
  | delButtonPressed {sc : ScreenID} {s : Screen Double} (screen : w.screens sc = some s) :
      w.Issues (.delButtonPressed sc) (.query ⟨s.demoAd.title, none⟩ (.delButtonPressed sc))
  | commit (dev : DeviceID) (ad : DefaultAds Double) :
      w.Issues (.commit dev ad) (.query ⟨ad.title, none⟩ (.commit dev))
  | homeCommit (dev : DeviceID) (id : DocID) :
      w.Issues (.homeCommit dev id) (.write (.delete id) (.homeCommit dev))
  | publishButton (dev : DeviceID) (id : DocID) (data : AdData) :
      w.Issues (.publishButton dev id data) (.write (.addDocument id data) (.annonceSauvegardee dev))
  | evaluate (q : Query) (k : Callback) (ids : List DocID) :
      w.Issues (.evaluate q k ids) (.answer ids k)
  | apply (wr : Write) (c : Completion) :
      w.Issues (.apply wr c) (.ack (wr.apply w.ads).isSome c)
  | fail (wr : Write) (c : Completion) : w.Issues (.fail (.write wr c)) (.ack false c)
  | misEnFavoris {sc : ScreenID} {s : Screen Double} {ids : List DocID} {id : DocID}
      (screen : w.screens sc = some s) (flag : s.inFavorite ≠ some true) (mem : id ∈ ids) :
      w.Issues (.deliver (.answer ids (.favoriteButton sc)))
        (.write (.setData id (markOrUnknown (w.session s.device))) (.misEnFavoris sc))
  | favorisRemoved {sc : ScreenID} {s : Screen Double} {ids : List DocID} {id : DocID}
      (screen : w.screens sc = some s) (flag : s.inFavorite = some true) (mem : id ∈ ids) :
      w.Issues (.deliver (.answer ids (.favoriteButton sc)))
        (.write (.updateData id (markOrUnknown (w.session s.device))) (.favorisRemoved sc))
  | annonceSuprimee {sc : ScreenID} {ids : List DocID} {id : DocID} (mem : id ∈ ids) :
      w.Issues (.deliver (.answer ids (.delButtonPressed sc)))
        (.write (.delete id) (.annonceSuprimee sc))
  | swiped {dev : DeviceID} {ids : List DocID} {id : DocID} (mem : id ∈ ids) :
      w.Issues (.deliver (.answer ids (.commit dev)))
        (.write (.updateData id (markOrUnknown (w.session dev))) (.commit dev))

theorem answerWrites_issues {w : World Double} {ids : List DocID} {k : Callback} {t : Task}
    (h : t ∈ w.answerWrites ids k) : w.Issues (.deliver (.answer ids k)) t := by
  cases k with
  | checkFavorites sc => simp [answerWrites] at h
  | favoriteButton sc =>
    simp only [answerWrites] at h
    cases hs : w.screens sc with
    | none => simp [hs] at h
    | some s =>
      simp only [hs, Option.map_some, Option.getD_some, favoriteWrites, List.mem_map] at h
      obtain ⟨id, hid, rfl⟩ := h
      split
      · rename_i hflag
        exact .misEnFavoris hs hflag hid
      · rename_i hflag
        exact .favorisRemoved hs (not_not.mp hflag) hid
  | delButtonPressed sc =>
    simp only [answerWrites, List.mem_map] at h
    obtain ⟨id, hid, rfl⟩ := h
    exact .annonceSuprimee hid
  | commit dev =>
    simp only [answerWrites, List.mem_map] at h
    obtain ⟨id, hid, rfl⟩ := h
    exact .swiped hid

theorem mem_issued {w : World Double} {e : Event Double} {t : Task} (h : t ∈ w.issued e) :
    w.Issues e t := by
  cases e with
  | viewDidAppear sc | favoriteButton sc | delButtonPressed sc =>
    simp only [issued, Option.mem_toList, Option.map_eq_some_iff] at h
    obtain ⟨s, hs, rfl⟩ := h
    constructor
    exact hs
  | commit dev ad | homeCommit dev id | publishButton dev id data | evaluate q k ids
  | apply wr c =>
    simp only [issued, List.mem_singleton] at h
    subst h
    constructor
  | fail t' =>
    cases t' with
    | write wr c =>
      simp only [issued, List.mem_singleton] at h
      subst h
      constructor
    | _ => simp [issued] at h
  | deliver t' =>
    cases t' with
    | answer ids k => exact answerWrites_issues h
    | _ => simp [issued] at h
  | viewDidLoad sc dev ad | signIn dev user | signOut dev => simp [issued] at h

/-- What is under way after a step was so before, or the event has issued it. -/
theorem mem_step_pending {w u : World Double} {e : Event Double} {t : Task}
    (h : step w e = some u) (ht : t ∈ u.pending) : t ∈ w.pending ∨ t ∈ w.issued e := by
  rw [(step_effect h).pending, List.mem_append] at ht
  rcases ht with ht | ht
  · cases htaken : e.taken with
    | none => exact Or.inl (by simpa [htaken] using ht)
    | some t' =>
      rw [htaken] at ht
      exact Or.inl (List.mem_of_mem_erase ht)
  · exact Or.inr ht

/-- The document ID that an event draws. -/
def Event.draws : Event Double → Option DocID
  | .homeCommit _ id | .publishButton _ id _ => some id
  | _ => none

def sessionAfter (session : DeviceID → Option User) : Event Double → DeviceID → Option User
  | .signIn dev user => Function.update session dev (some user)
  | .signOut dev => Function.update session dev none
  | _ => session

/-- What a step does to the sessions and to the document IDs in use. -/
structure World.Keeps (w u : World Double) (e : Event Double) : Prop where
  session : u.session = sessionAfter w.session e
  drawn : ∀ id, id ∈ u.drawn ↔ id ∈ w.drawn ∨ e.draws = some id
  new : ∀ id, e.draws = some id → id ∉ w.drawn

/-- The callback of a query leaves the sessions and the IDs in use. -/
theorem answered_keeps (w : World Double) (ids : List DocID) (k : Callback) :
    (w.answered ids k).session = w.session ∧ (w.answered ids k).drawn = w.drawn := by
  cases k with
  | checkFavorites sc =>
    rw [answered_check]
    split <;> exact ⟨rfl, rfl⟩
  | favoriteButton sc =>
    simp only [answered]
    split <;> exact ⟨rfl, rfl⟩
  | delButtonPressed sc | commit dev => exact ⟨rfl, rfl⟩

/-- The completion of a write leaves the sessions and the IDs in use. -/
theorem completed_keeps (w : World Double) (ok : Bool) (c : Completion) :
    (w.completed ok c).session = w.session ∧ (w.completed ok c).drawn = w.drawn := by
  cases c with
  | misEnFavoris sc | favorisRemoved sc =>
    simp only [completed]
    split <;> exact ⟨rfl, rfl⟩
  | annonceSuprimee sc | commit dev | homeCommit dev | annonceSauvegardee dev => exact ⟨rfl, rfl⟩

theorem step_keeps {w u : World Double} {e : Event Double} (h : step w e = some u) :
    w.Keeps u e := by
  cases e with
  | viewDidLoad sc dev ad =>
    simp only [step] at h
    split at h
    · contradiction
    · cases h
      constructor <;> simp [sessionAfter, Event.draws]
  | viewDidAppear sc | favoriteButton sc | delButtonPressed sc =>
    obtain ⟨s, -, rfl⟩ := Option.map_eq_some_iff.mp h
    constructor <;> simp [sessionAfter, Event.draws, issue]
  | commit dev ad | signIn dev user | signOut dev =>
    cases h
    constructor <;> simp [sessionAfter, Event.draws, issue]
  | homeCommit dev id | publishButton dev id data =>
    simp only [step] at h
    split at h
    · contradiction
    · rename_i hnew
      cases h
      constructor <;> simp [sessionAfter, Event.draws, issue, hnew, or_comm, eq_comm]
  | evaluate q k ids =>
    simp only [step] at h
    split at h
    · obtain ⟨v, hv, rfl⟩ := Option.map_eq_some_iff.mp h
      obtain ⟨-, rfl⟩ := take_eq_some.mp hv
      constructor <;> simp [sessionAfter, Event.draws, issue]
    · contradiction
  | apply wr c =>
    obtain ⟨-, ⟨ads, -, rfl⟩ | ⟨-, rfl⟩⟩ := step_apply h <;>
      constructor <;> simp [sessionAfter, Event.draws]
  | fail t =>
    cases t with
    | query q k =>
      obtain ⟨-, rfl⟩ := take_eq_some.mp h
      constructor <;> simp [sessionAfter, Event.draws]
    | write wr c =>
      obtain ⟨v, hv, rfl⟩ := Option.map_eq_some_iff.mp h
      obtain ⟨-, rfl⟩ := take_eq_some.mp hv
      constructor <;> simp [sessionAfter, Event.draws, issue]
    | answer ids k | ack ok c => contradiction
  | deliver t =>
    cases t with
    | query q k | write wr c => contradiction
    | answer ids k =>
      obtain ⟨v, hv, rfl⟩ := Option.map_eq_some_iff.mp h
      obtain ⟨-, rfl⟩ := take_eq_some.mp hv
      obtain ⟨hsession, hdrawn⟩ :=
        answered_keeps { w with pending := w.pending.erase (.answer ids k) } ids k
      constructor <;> simp [sessionAfter, Event.draws, hsession, hdrawn]
    | ack ok c =>
      obtain ⟨v, hv, rfl⟩ := Option.map_eq_some_iff.mp h
      obtain ⟨-, rfl⟩ := take_eq_some.mp hv
      obtain ⟨hsession, hdrawn⟩ :=
        completed_keeps { w with pending := w.pending.erase (.ack ok c) } ok c
      constructor <;> simp [sessionAfter, Event.draws, hsession, hdrawn]

end VoisinMalin
