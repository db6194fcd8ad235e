import VoisinMalin.SignUp

/-! The name that Home shows. HomeViewController stays when its user signs out; each appearance looks
the user name of the session up, and an answer with a user name writes the label, whoever is signed
in by then. An empty or failed answer writes nothing, so the label keeps the name of the last user
that had one. -/

namespace VoisinMalin

open EventMachine

/-- A user name in the label, with the user whose document it comes from. -/
structure ShownName where
  uid : String
  userName : String
deriving DecidableEq

/-- HomeViewController and the session of its device. The label has the text of the storyboard until
a name comes in. -/
structure HomeState where
  currentUID : Option String
  nameLabel : Option ShownName
  appeared : Bool -- in this session
  queries : List String

inductive HomeEvent where
  | signIn (uid : String)
  | decoPressButton (isSuccess : Bool)
  | viewDidAppear
  | answer (uid : String) (docs : Option (List Fields)) -- `none` is an error

namespace HomeState

def launch (currentUID : Option String) : HomeState := ⟨currentUID, none, false, []⟩

def step (s : HomeState) : HomeEvent → Option HomeState
  | .signIn uid => some { s with currentUID := some uid, appeared := false }
  -- A sign-out that fails is only reported.
  | .decoPressButton isSuccess =>
    some (if isSuccess then { s with currentUID := none, appeared := false } else s)
  | .viewDidAppear =>
    match s.currentUID with
    | some uid => some { s with appeared := true, queries := s.queries ++ [uid] }
    | none => some s
  | .answer uid docs =>
    -- The documents of an answer are those of the uid that it is about.
    if uid ∈ s.queries ∧ (docs.getD []).all (whereField "uid" uid) then
      match userName? docs with
      | some userName => some { s with
          queries := s.queries.erase uid, nameLabel := some ⟨uid, userName⟩ }
      | none => some { s with queries := s.queries.erase uid }
    else none

/-- A user is signed in, Home has appeared since, and every query has been answered. -/
structure Settled (s : HomeState) (uid : String) : Prop where
  signedIn : s.currentUID = some uid
  appeared : s.appeared = true
  answered : s.queries = []

/-- In a settled state Home shows no name of another user. -/
def NoForeignName (s : HomeState) : Prop :=
  ∀ uid, s.Settled uid → ∀ shown, s.nameLabel = some shown → shown.uid = uid

/-- Once Home has appeared to the signed-in user, each answer is for this user and has a name. -/
def NamesUser (s : HomeState) (e : HomeEvent) : Prop :=
  ∀ uid docs, e = .answer uid docs → s.appeared = true →
    s.currentUID = some uid ∧ (userName? docs).isSome

/-- Once Home has appeared to the signed-in user, the label has this user's name or waits for it. -/
def OwnNameDue (s : HomeState) : Prop :=
  s.appeared = true → ∃ uid, s.currentUID = some uid ∧
    (uid ∈ s.queries ∨ ∃ userName, s.nameLabel = some ⟨uid, userName⟩)

end HomeState

open HomeState

/-- The name that an event brings, with its user. -/
def HomeEvent.brings : HomeEvent → Option ShownName
  | .answer uid docs => (userName? docs).map (ShownName.mk uid)
  | _ => none

/-- The last user name that the answers of a run have brought. -/
def lastBrought (es : List HomeEvent) : Option ShownName := (es.filterMap HomeEvent.brings).getLast?

section Label

variable {s t : HomeState} {e : HomeEvent} {es : List HomeEvent}

/-- A step changes the label by the name that its event brings and by nothing else. -/
theorem step_nameLabel (h : step s e = some t) : t.nameLabel = e.brings.or s.nameLabel := by
  cases e with
  | signIn uid =>
    cases h
    rfl
  | decoPressButton isSuccess =>
    cases h
    cases isSuccess <;> rfl
  | viewDidAppear =>
    simp only [step] at h
    split at h <;> cases h <;> rfl
  | answer uid docs =>
    simp only [step] at h
    split at h
    · split at h
      · rename_i userName hname
        cases h
        simp [HomeEvent.brings, hname]
      · rename_i hname
        cases h
        simp [HomeEvent.brings, hname]
    · contradiction

theorem run_nameLabel (h : run step s es = some t) :
    t.nameLabel = (lastBrought es).or s.nameLabel := by
  refine run_lastOf (P := fun shown t => t.nameLabel = shown) (fun shown u e v hu hv => ?_) rfl h
  rw [step_nameLabel hv, hu]

theorem step_ownNameDue (hs : s.OwnNameDue) (he : s.NamesUser e) (h : step s e = some t) :
    t.OwnNameDue := by
  intro happeared
  cases e with
  | signIn uid =>
    cases h
    contradiction
  | decoPressButton isSuccess =>
    cases h
    cases isSuccess with
    | true => contradiction
    | false => exact hs happeared
  | viewDidAppear =>
    simp only [step] at h
    split at h
    · rename_i uid huid
      cases h
      exact ⟨uid, huid, Or.inl (by simp)⟩
    · cases h
      exact hs happeared
  | answer uid docs =>
    have hsame : t.appeared = s.appeared ∧ t.currentUID = s.currentUID := by
      simp only [step] at h
      split at h
      · split at h
        · cases h
          exact ⟨rfl, rfl⟩
        · cases h
          exact ⟨rfl, rfl⟩
      · contradiction
    rw [hsame.1] at happeared
    obtain ⟨huid, hname⟩ := he uid docs rfl happeared
    obtain ⟨userName, hname⟩ := Option.isSome_iff_exists.mp hname
    refine ⟨uid, hsame.2.trans huid, Or.inr ⟨userName, ?_⟩⟩
    rw [step_nameLabel h, HomeEvent.brings, hname]
    rfl

theorem OwnNameDue.noForeignName (hs : s.OwnNameDue) : s.NoForeignName := by
  intro uid hsettled shown hshown
  obtain ⟨uid', huid, hqueried | ⟨userName, hlabel⟩⟩ := hs hsettled.appeared
  · simp [hsettled.answered] at hqueried
  · rw [hlabel] at hshown
    cases hshown
    exact Option.some.inj (huid.symm.trans hsettled.signedIn)

end Label

/-- Home shows no name of another user in any settled state of a run if and only if in each of these
states the last user name that an answer has brought is that of the signed-in user, or none has come
in. For this it is enough that each answer after Home has appeared to a user is for this user and has
a user name. -/
theorem noForeignName_iff (currentUID : Option String) (es : List HomeEvent) :
    (Always step NoForeignName (launch currentUID) es ↔ ∀ fs gs s, es = fs ++ gs →
      run step (launch currentUID) fs = some s → ∀ uid, s.Settled uid →
      ∀ shown, lastBrought fs = some shown → shown.uid = uid) ∧
    (Along step NamesUser (launch currentUID) es →
      Always step NoForeignName (launch currentUID) es) := by
  refine ⟨?_, fun h => h.always (fun _ _ _ => step_ownNameDue)
    (fun _ => OwnNameDue.noForeignName) (fun happeared => by contradiction)⟩
  rw [always_iff_run]
  refine forall_congr' fun fs => forall₂_congr fun gs s => forall₂_congr fun _ hrun => ?_
  have hlabel : s.nameLabel = lastBrought fs := by
    rw [run_nameLabel hrun, launch, Option.or_none]
  rw [NoForeignName, hlabel]

/-- Alice looks at Home and signs out, and Bob, who has no document, looks at it. -/
def bobAfterAlice : List HomeEvent :=
  [.viewDidAppear, .answer alice.uid.name (some [userInfo alice.uid.name "Alice"]),
    .decoPressButton true, .signIn bob.uid.name, .viewDidAppear, .answer bob.uid.name (some [])]

/-- Bob sees Alice's name. -/
theorem bobAfterAlice_foreign : ∃ s, run step (launch (some alice.uid.name)) bobAfterAlice = some s ∧
    s.Settled bob.uid.name ∧ s.nameLabel = some ⟨alice.uid.name, "Alice"⟩ ∧ ¬s.NoForeignName := by
  obtain ⟨s, hrun, hsettled, hlabel⟩ : ∃ s,
      run step (launch (some alice.uid.name)) bobAfterAlice = some s ∧ s.Settled bob.uid.name ∧
      s.nameLabel = some ⟨alice.uid.name, "Alice"⟩ := ⟨_, rfl, ⟨rfl, rfl, rfl⟩, rfl⟩
  refine ⟨s, hrun, hsettled, hlabel, fun h => ?_⟩
  exact absurd (h _ hsettled _ hlabel) (by decide)

end VoisinMalin
