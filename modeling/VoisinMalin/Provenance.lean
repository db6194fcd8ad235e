import VoisinMalin.AdForm

/-! The images of the published ads. The URL of an upload goes through the user default `url`, which
all visits on a device share, so an ad has an image of its own visit if and only if the last URL that
came in on the device before the press was one of this visit. -/

namespace VoisinMalin

open EventMachine Visits

variable {Double : Type}

/-- Each document that was written has as its image a download URL that its own form has got. -/
def Provenance (s : Visits) : Prop :=
  ∀ data ∈ s.written, ∃ o ∈ s.obtained, o.unique = data.documentID ∧ o.url = data.image

def Visits.lastObtained (s : Visits) (dev : DeviceID) : Option Obtained :=
  s.obtained.find? fun o => o.device == dev

/-- A press that is accepted comes when the last URL on the device is of the same form. -/
def OwnURL (sv : FormServices Double) (s : Visits) (e : FormEvent Double) : Prop :=
  ∀ unique form data, e = .publishButton unique → s.forms unique = some form →
    s.published sv unique = some data →
    ∃ o, s.lastObtained form.device = some o ∧ o.unique = unique

section Step

variable {sv : FormServices Double} {s t : Visits} {e : FormEvent Double}

/-- The URLs that came in are those of objects under the UUIDs of their forms, and the user default
of a device is the last of them. -/
structure Stored (sv : FormServices Double) (s : Visits) : Prop where
  uuids : ∀ unique form, s.forms unique = some form → unique ∈ s.uuids
  url : ∀ dev o, s.lastObtained dev = some o → s.url dev = some o.url
  path : ∀ o ∈ s.obtained, ∃ token, o.url = sv.absoluteString ("image/" ++ o.unique) token
  device : ∀ o ∈ s.obtained, ∃ form, s.forms o.unique = some form ∧ form.device = o.device

theorem Stored.of_eq (hs : Stored sv s) (hforms : t.forms = s.forms) (huuids : t.uuids = s.uuids)
    (hurl : t.url = s.url) (hobtained : t.obtained = s.obtained) : Stored sv t := by
  refine ⟨fun unique form h => ?_, fun dev o h => ?_, fun o h => ?_, fun o h => ?_⟩
  · rw [huuids]
    exact hs.uuids unique form (hforms ▸ h)
  · rw [hurl]
    rw [lastObtained, hobtained] at h
    exact hs.url dev o h
  · exact hs.path o (hobtained ▸ h)
  · rw [hforms]
    exact hs.device o (hobtained ▸ h)

theorem step_stored (hs : Stored sv s) (h : step sv s e = some t) : Stored sv t := by
  cases step_stepped h with
  | @loaded dev unique new state =>
    subst state
    have hnew : s.forms unique = none := by
      cases hform : s.forms unique with
      | none => rfl
      | some form => exact absurd (hs.uuids unique form hform) new
    refine ⟨fun u form hform => ?_, hs.url, hs.path, fun o ho => ?_⟩
    · by_cases hsame : u = unique
      · subst hsame
        exact Finset.mem_insert_self u s.uuids
      · rw [load_forms, if_neg hsame] at hform
        exact Finset.mem_insert_of_mem (hs.uuids u form hform)
    · obtain ⟨form, hform, hdevice⟩ := hs.device o ho
      refine ⟨form, ?_, hdevice⟩
      have hsame : o.unique ≠ unique := by
        intro hsame
        rw [hsame, hnew] at hform
        contradiction
      rw [load_forms, if_neg hsame]
      exact hform
  | @obtained unique token form known state =>
    subst state
    refine ⟨hs.uuids, fun dev o ho => ?_, fun o ho => ?_, fun o ho => ?_⟩
    · rw [receive_url]
      by_cases hsame : dev = form.device
      · subst hsame
        rw [lastObtained, receive, List.find?_cons_of_pos (by simp)] at ho
        cases ho
        rw [if_pos rfl]
      · rw [lastObtained, receive, List.find?_cons_of_neg (by simpa using Ne.symm hsame)] at ho
        rw [if_neg hsame]
        exact hs.url dev o ho
    · rcases List.mem_cons.mp ho with rfl | ho
      · exact ⟨token, rfl⟩
      · exact hs.path o ho
    · rcases List.mem_cons.mp ho with rfl | ho
      · exact ⟨form, known, rfl⟩
      · exact hs.device o ho
  | published accepted state | applied mem free state | failed mem state | acked mem known state =>
    subst state
    exact hs.of_eq rfl rfl rfl rfl
  | other rejected applies state =>
    refine ⟨fun unique form hform => ?_, fun dev o ho => ?_, fun o ho => ?_, fun o ho => ?_⟩
    · obtain ⟨form', hform'⟩ := Option.isSome_iff_exists.mp
        (state.known unique (by simp [hform]))
      rw [state.uuids]
      exact hs.uuids unique form' hform'
    · rw [lastObtained, state.obtained] at ho
      rw [state.url]
      exact hs.url dev o ho
    · exact hs.path o (state.obtained ▸ ho)
    · obtain ⟨form, hform, hdevice⟩ := hs.device o (state.obtained ▸ ho)
      obtain ⟨form', hform', hsame⟩ := state.forms o.unique form hform
      exact ⟨form', hform', hsame.trans hdevice⟩

theorem Provenance.mono (hs : Provenance s) (hwritten : t.written = s.written)
    (hobtained : ∀ o ∈ s.obtained, o ∈ t.obtained) : Provenance t := by
  intro data hdata
  obtain ⟨o, ho, hown⟩ := hs data (hwritten ▸ hdata)
  exact ⟨o, hobtained o ho, hown⟩

/-- The image of an accepted press is one of the form exactly when the last URL on the device is. -/
theorem published_provenance (hurl : ∀ path path' token token',
      sv.absoluteString path token = sv.absoluteString path' token' → path = path')
    (hs : Stored sv s) {unique : String} {data : AdData} {form : Form}
    (hform : s.forms unique = some form) (hdata : s.published sv unique = some data) :
    (∃ o ∈ s.obtained, o.unique = data.documentID ∧ o.url = data.image) ↔
      ∃ o, s.lastObtained form.device = some o ∧ o.unique = unique := by
  obtain ⟨form', hform', -, hdocument, himage⟩ := published_eq_some hdata
  rw [hform] at hform'
  cases hform'
  rw [hdocument]
  constructor
  · rintro ⟨o, ho, hunique, himage'⟩
    obtain ⟨form', hform', hdevice⟩ := hs.device o ho
    rw [hunique, hform] at hform'
    cases hform'
    obtain ⟨last, hlast⟩ : ∃ last, s.lastObtained form.device = some last := by
      rw [← Option.isSome_iff_exists, lastObtained, List.find?_isSome]
      exact ⟨o, ho, by simp [hdevice]⟩
    refine ⟨last, hlast, ?_⟩
    obtain ⟨token, htoken⟩ := hs.path o ho
    obtain ⟨token', htoken'⟩ := hs.path last (List.mem_of_find?_eq_some hlast)
    have hsame : last.url = o.url := by
      have hstored := hs.url form.device last hlast
      rw [himage, Option.some.injEq] at hstored
      rw [himage', hstored]
    rw [htoken, htoken', hunique] at hsame
    simpa using hurl _ _ _ _ hsame
  · rintro ⟨o, ho, hunique⟩
    refine ⟨o, List.mem_of_find?_eq_some ho, hunique, ?_⟩
    have hstored := hs.url form.device o ho
    rw [himage, Option.some.injEq] at hstored
    exact hstored.symm

theorem step_provenance (hurl : ∀ path path' token token',
      sv.absoluteString path token = sv.absoluteString path' token' → path = path')
    (hstored : Stored sv s) (hs : Provenance s) (h : step sv s e = some t) :
    Provenance t ↔ OwnURL sv s e := by
  cases step_stepped h with
  | loaded new state | applied mem free state | failed mem state | acked mem known state =>
    subst state
    exact ⟨fun _ => by intro _ _ _ he; contradiction, fun _ => hs⟩
  | obtained known state =>
    subst state
    exact ⟨fun _ => by intro _ _ _ he; contradiction,
      fun _ => hs.mono rfl fun o ho => List.mem_cons_of_mem _ ho⟩
  | @published unique data accepted state =>
    subst state
    constructor
    · intro ht unique' form data' he hform hdata'
      cases he
      rw [accepted] at hdata'
      cases hdata'
      exact (published_provenance hurl hstored hform accepted).mp (ht data (by simp))
    · intro hown data' hdata'
      rcases List.mem_append.mp hdata' with hold | hnew
      · exact hs data' hold
      · rw [List.mem_singleton] at hnew
        subst hnew
        obtain ⟨form, hform, -⟩ := published_eq_some accepted
        exact (published_provenance hurl hstored hform accepted).mpr
          (hown unique form _ rfl hform accepted)
  | other rejected applies state =>
    constructor
    · intro _ unique form data he _ hdata
      rw [rejected unique he] at hdata
      contradiction
    · exact fun _ => hs.mono state.written fun o ho => state.obtained ▸ ho

end Step

/-- In every state of a run the published ads have images of their own visits exactly when at each
accepted press the last URL that came in on the device is one of the same visit. -/
theorem provenance_iff {sv : FormServices Double} (hurl : ∀ path path' token token',
      sv.absoluteString path token = sv.absoluteString path' token' → path = path')
    (ads : Collection) (uuids : Finset String) (session : DeviceID → Option User)
    (userMail url : DeviceID → Option String) (es : List (FormEvent Double)) :
    Always (step sv) Provenance (launch ads uuids session userMail url) es ↔
      Along (step sv) (OwnURL sv) (launch ads uuids session userMail url) es :=
  always_iff_along (fun _ _ _ hs h => step_stored hs h)
    (fun _ _ _ hstored hs h => step_provenance hurl hstored hs h)
    ⟨fun _ _ h => by contradiction, fun _ _ h => by contradiction,
      fun _ h => by contradiction, fun _ h => by contradiction⟩
    (fun _ h => by contradiction)

theorem plainServices_url (path path' token token' : String)
    (h : plainServices.absoluteString path token = plainServices.absoluteString path' token') :
    path = path' := by
  simpa [plainServices] using h

/-- A visit with an image of its own. -/
def visitWithImage : List (FormEvent Nat) :=
  [.viewDidLoad 0 "A", fills "A" "Velo", .didFinishPicking "A", .put "A" true,
    .downloadURL "A" (some "token"), .publishButton "A", .leave 0]

/-- A later visit without one. -/
def visitWithoutImage : List (FormEvent Nat) :=
  [.viewDidLoad 0 "B", fills "B" "Table", .publishButton "B"]

theorem visitWithImage_provenance :
    Always (step plainServices) Provenance alicesPhone visitWithImage := by
  refine (provenance_iff plainServices_url _ _ _ _ _ _).mpr ?_
  iterate 5 refine Along.cons rfl (fun _ _ _ he => nomatch he) ?_
  refine Along.cons rfl (fun unique form data he hform _ => ?_) ?_
  · cases he
    cases hform
    exact ⟨_, rfl, rfl⟩
  refine Along.cons rfl (fun _ _ _ he => nomatch he) ?_
  trivial

/-- The ad of the later visit has the image of the earlier one. -/
theorem visitWithoutImage_takes_image : ∃ s,
    run (step plainServices) alicesPhone (visitWithImage ++ visitWithoutImage) = some s ∧
    ¬Provenance s := by
  obtain ⟨s, hrun, hobtained, hwritten⟩ : ∃ s,
      run (step plainServices) alicesPhone (visitWithImage ++ visitWithoutImage) = some s ∧
      s.obtained.map Obtained.unique = ["A"] ∧ s.written.map AdData.documentID = ["A", "B"] :=
    ⟨_, rfl, rfl, rfl⟩
  refine ⟨s, hrun, fun h => ?_⟩
  obtain ⟨data, hdata, hdocument⟩ : ∃ data ∈ s.written, data.documentID = "B" := by
    rw [← List.mem_map, hwritten]
    decide
  obtain ⟨o, ho, hunique, -⟩ := h data hdata
  have hmem : o.unique ∈ s.obtained.map Obtained.unique := List.mem_map_of_mem ho
  rw [hobtained, hunique, hdocument] at hmem
  exact absurd hmem (by decide)

end VoisinMalin
