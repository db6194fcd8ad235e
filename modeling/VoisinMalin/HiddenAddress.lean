import VoisinMalin.AdForm

/-! The hidden address. The switch empties the location of the form when it is turned, and an answer
of the geocoder fills it again, whatever the switch says; so an ad that is published with the switch
on has no location if and only if no address has come in since the switch was turned. -/

namespace VoisinMalin

open EventMachine Visits

variable {Double : Type}

/-- What an event makes of the form `unique`. -/
def formAfter (sv : FormServices Double) (unique : String) (form : Form) : FormEvent Double → Form
  | .edit u title description price phone =>
    if unique = u then
      { form with title := title, description := description, price := price, phone := phone }
    else form
  | .adressHidden u isOn => if unique = u then form.adressHidden isOn else form
  | .didUpdateLocations u locations =>
    if unique = u then (locations.getLast?.map (form.located sv)).getD form else form
  | .geocoded u placemarks => if unique = u then form.geocoded (placemarks.getD []) else form
  | _ => form

/-- The form that an event loads under `unique`. -/
def FormEvent.loads (unique : String) : FormEvent Double → Option Form
  | .viewDidLoad dev u => if unique = u then some (.loaded dev) else none
  | _ => none

/-- The address that the geocoder has brought since the switch was last turned, after one more
event. -/
def addressAfter (unique : String) (address : Option String) : FormEvent Double → Option String
  | .viewDidLoad _ u | .adressHidden u _ => if unique = u then none else address
  | .geocoded u placemarks =>
    if unique = u then ((placemarks.getD []).getLast?.map Placemark.address).or address
    else address
  | _ => address

/-- The address that came in for the form `unique` in a run, since its switch was last turned. -/
def lateAddress (unique : String) (es : List (FormEvent Double)) : Option String :=
  es.foldl (addressAfter unique) none

/-- After the events `fs` of `es` the form `unique` is published, with the switch on, as `data`. -/
def PublishedHidden (sv : FormServices Double) (s : Visits) (es fs : List (FormEvent Double))
    (unique : String) (data : AdData) : Prop :=
  ∃ gs t form, es = fs ++ .publishButton unique :: gs ∧ run (step sv) s fs = some t ∧
    t.forms unique = some form ∧ form.isOn = true ∧ t.published sv unique = some data

section Step

variable {sv : FormServices Double} {s t : Visits} {e : FormEvent Double} {unique : String}

theorem setForm_forms (s : Visits) (u unique : String) (form : Form) :
    (s.setForm u form).forms unique = if unique = u then some form else s.forms unique := by
  simp [setForm, Function.update_apply]

theorem loads_eq_some {form : Form} : e.loads unique = some form ↔
    ∃ dev, e = .viewDidLoad dev unique ∧ form = .loaded dev := by
  constructor
  · intro h
    cases e with
    | viewDidLoad dev u =>
      obtain ⟨rfl, hform⟩ := Option.ite_none_right_eq_some.mp h
      exact ⟨dev, rfl, (Option.some.inj hform).symm⟩
    | _ => contradiction
  · rintro ⟨dev, rfl, rfl⟩
    exact if_pos rfl

/-- A step loads a form, or makes of each form what `formAfter` says. -/
theorem step_forms (unique : String) (h : step sv s e = some t) :
    t.forms unique = (e.loads unique).or ((s.forms unique).map (formAfter sv unique · e)) := by
  cases e with
  | session dev user | setUserMail dev | leave dev =>
    cases h
    simp [FormEvent.loads, formAfter]
  | viewDidLoad dev u =>
    simp only [step] at h
    split at h
    · cases h
      rw [load_forms]
      by_cases hu : unique = u <;> simp [FormEvent.loads, formAfter, hu]
    · contradiction
  | edit u title description price phone =>
    obtain ⟨form, hform, rfl⟩ := Option.map_eq_some_iff.mp h
    have hknown := (shown_eq_some.mp hform).1
    rw [setForm_forms]
    by_cases hu : unique = u
    · subst hu
      simp [FormEvent.loads, formAfter, hknown]
    · simp [FormEvent.loads, formAfter, hu]
  | adressHidden u isOn =>
    obtain ⟨form, hform, rfl⟩ := Option.map_eq_some_iff.mp h
    have hknown := (shown_eq_some.mp hform).1
    rw [setForm_forms]
    by_cases hu : unique = u
    · subst hu
      simp [FormEvent.loads, formAfter, hknown]
    · simp [FormEvent.loads, formAfter, hu]
  | didUpdateLocations u locations =>
    obtain ⟨form, hknown, rfl⟩ := Option.map_eq_some_iff.mp h
    cases hlast : locations.getLast? with
    | none => simp [FormEvent.loads, formAfter, hlast]
    | some location =>
      simp only [call]
      rw [setForm_forms]
      by_cases hu : unique = u
      · subst hu
        simp [FormEvent.loads, formAfter, hknown, hlast]
      · simp [FormEvent.loads, formAfter, hu]
  | geocoded u placemarks =>
    obtain ⟨v, hv, hmap⟩ := Option.bind_eq_some_iff.mp h
    obtain ⟨form, hknown, rfl⟩ := Option.map_eq_some_iff.mp hmap
    obtain ⟨-, rfl⟩ := takeCall_eq_some.mp hv
    have hform : s.forms u = some form := hknown
    rw [setForm_forms]
    by_cases hu : unique = u
    · subst hu
      simp [FormEvent.loads, formAfter, hform]
    · simp [FormEvent.loads, formAfter, hu]
  | didFinishPicking u =>
    obtain ⟨form, -, rfl⟩ := Option.map_eq_some_iff.mp h
    simp [FormEvent.loads, formAfter, call]
  | put u ok =>
    obtain ⟨v, hv, rfl⟩ := Option.map_eq_some_iff.mp h
    obtain ⟨-, rfl⟩ := takeCall_eq_some.mp hv
    cases ok <;> simp [FormEvent.loads, formAfter, call]
  | downloadURL u token =>
    obtain ⟨v, hv, hmap⟩ := Option.bind_eq_some_iff.mp h
    obtain ⟨form, -, rfl⟩ := Option.map_eq_some_iff.mp hmap
    obtain ⟨-, rfl⟩ := takeCall_eq_some.mp hv
    cases token <;> simp [FormEvent.loads, formAfter, receive]
  | publishButton u =>
    obtain ⟨form, -, rfl⟩ := Option.map_eq_some_iff.mp h
    cases s.published sv u <;> simp [FormEvent.loads, formAfter]
  | apply u data id =>
    obtain ⟨v, hv, hadd⟩ := Option.bind_eq_some_iff.mp h
    obtain ⟨-, rfl⟩ := takeSaving_eq_some.mp hv
    split at hadd
    · contradiction
    · cases hadd
      simp [FormEvent.loads, formAfter]
  | fail u data =>
    obtain ⟨v, hv, rfl⟩ := Option.map_eq_some_iff.mp h
    obtain ⟨-, rfl⟩ := takeSaving_eq_some.mp hv
    simp [FormEvent.loads, formAfter]
  | deliver u ok =>
    obtain ⟨v, hv, hmap⟩ := Option.bind_eq_some_iff.mp h
    obtain ⟨form, -, rfl⟩ := Option.map_eq_some_iff.mp hmap
    obtain ⟨-, rfl⟩ := takeSaving_eq_some.mp hv
    split <;> simp [FormEvent.loads, formAfter]

theorem geocoded_location (form : Form) (placemarks : List Placemark) :
    (form.geocoded placemarks).location =
        (placemarks.getLast?.map Placemark.address).getD form.location ∧
      (form.geocoded placemarks).isOn = form.isOn := by
  unfold Form.geocoded
  induction placemarks generalizing form with
  | nil => exact ⟨rfl, rfl⟩
  | cons p placemarks ih =>
    obtain ⟨hlocation, hswitch⟩ := ih { form with location := p.address, adsAddress := some p.address }
    refine ⟨?_, hswitch⟩
    rw [List.foldl_cons, hlocation, List.getLast?_cons]
    cases placemarks.getLast? <;> rfl

/-- While the switch of the form is on, its location is the address that has come in since. -/
def Hides (unique : String) (address : Option String) (s : Visits) : Prop :=
  ∀ form, s.forms unique = some form → form.isOn = true → form.location = address.getD ""

/-- An event leaves a form whose switch is on with the address that has come in. -/
theorem formAfter_hides {form : Form} {address : Option String}
    (hform : form.isOn = true → form.location = address.getD "")
    (hon : (formAfter sv unique form e).isOn = true) (hloads : e.loads unique = none) :
    (formAfter sv unique form e).location = (addressAfter unique address e).getD "" := by
  cases e with
  | edit u title description price phone =>
    simp only [formAfter, addressAfter] at hon ⊢
    split at hon <;> simp_all
  | adressHidden u isOn =>
    simp only [formAfter, addressAfter] at hon ⊢
    split at hon
    · rename_i hu
      rw [if_pos hu, if_pos hu]
      simp only [Form.adressHidden] at hon ⊢
      rw [if_pos hon]
      rfl
    · rename_i hu
      rw [if_neg hu, if_neg hu]
      exact hform hon
  | didUpdateLocations u locations =>
    simp only [formAfter, addressAfter] at hon ⊢
    by_cases hu : unique = u
    · rw [if_pos hu] at hon ⊢
      cases hlast : locations.getLast? with
      | none =>
        rw [hlast] at hon
        exact hform hon
      | some location =>
        rw [hlast] at hon
        exact hform hon
    · rw [if_neg hu] at hon ⊢
      exact hform hon
  | geocoded u placemarks =>
    simp only [formAfter, addressAfter] at hon ⊢
    by_cases hu : unique = u
    · rw [if_pos hu] at hon ⊢
      obtain ⟨hlocation, hswitch⟩ := geocoded_location form (placemarks.getD [])
      rw [hswitch] at hon
      rw [if_pos hu, hlocation, hform hon]
      cases (placemarks.getD []).getLast? <;> rfl
    · rw [if_neg hu] at hon ⊢
      rw [if_neg hu]
      exact hform hon
  | viewDidLoad dev u =>
    by_cases hu : unique = u
    · simp [FormEvent.loads, hu] at hloads
    · simp only [addressAfter, if_neg hu]
      exact hform hon
  | _ => exact hform hon

theorem step_hides {address : Option String} (hs : Hides unique address s)
    (h : step sv s e = some t) : Hides unique (addressAfter unique address e) t := by
  intro form hform hon
  rw [step_forms unique h] at hform
  cases hloads : e.loads unique with
  | some loaded =>
    rw [hloads, Option.some_or, Option.some.injEq] at hform
    obtain ⟨dev, -, rfl⟩ := loads_eq_some.mp hloads
    rw [← hform] at hon
    contradiction
  | none =>
    rw [hloads, Option.none_or] at hform
    obtain ⟨before, hbefore, rfl⟩ := Option.map_eq_some_iff.mp hform
    exact formAfter_hides (hs before hbefore) hon hloads

end Step

section Run

variable {sv : FormServices Double} {s t : Visits} {unique : String}
  {es fs : List (FormEvent Double)}

theorem run_hides {address : Option String} (hs : Hides unique address s)
    (h : run (step sv) s es = some t) : Hides unique (es.foldl (addressAfter unique) address) t :=
  run_foldl (fun _ _ _ _ hu hv => step_hides hu hv) hs h

theorem published_location {form : Form} {data : AdData} (hform : s.forms unique = some form)
    (h : s.published sv unique = some data) : data.location = form.location := by
  obtain ⟨form', hshown, hdata⟩ := Option.bind_eq_some_iff.mp h
  have hform' := (shown_eq_some.mp hshown).1
  rw [hform] at hform'
  cases hform'
  exact (Form.publish_yields hdata).location

/-- What is published with the switch on has the address that came in since the switch was turned. -/
theorem publishedHidden_location {data : AdData} (hnew : ∀ unique, s.forms unique = none)
    (h : PublishedHidden sv s es fs unique data) :
    data.location = (lateAddress unique fs).getD "" := by
  obtain ⟨gs, t, form, -, hrun, hform, hon, hdata⟩ := h
  have hstart : Hides unique none s := fun form hform => by simp [hnew] at hform
  rw [published_location hform hdata]
  exact run_hides hstart hrun form hform hon

end Run

/-- Every ad of a run that is published with the switch on has no location exactly when at each of
these presses no address has come in since the switch was turned, or an empty one. -/
theorem hiddenAddress_iff (sv : FormServices Double) (ads : Collection) (uuids : Finset String)
    (session : DeviceID → Option User) (userMail url : DeviceID → Option String)
    (es : List (FormEvent Double)) :
    (∀ fs unique data, PublishedHidden sv (launch ads uuids session userMail url) es fs unique data →
      data.location = "") ↔
    ∀ fs unique data, PublishedHidden sv (launch ads uuids session userMail url) es fs unique data →
      (lateAddress unique fs).getD "" = "" := by
  refine forall₃_congr fun fs unique data => forall_congr' fun h => ?_
  rw [publishedHidden_location (fun _ => rfl) h]

/-- Alice's device with an image from an earlier visit. -/
def imageThere : Visits := launch ∅ ∅ (fun _ => some alice) (fun _ => none) (fun _ => some "image")

/-- Alice hides her address before the geocoder has answered, and it comes in afterwards. -/
def hidesTooEarly : List (FormEvent Nat) :=
  [.viewDidLoad 0 "A", fills "A" "Velo", .didUpdateLocations "A" [⟨48, 2⟩], .adressHidden "A" true,
    .geocoded "A" (some [⟨some "12 rue Haute", none, none⟩])]

/-- Her ad is published with the address, the switch being on. -/
theorem hidesTooEarly_published : ¬∀ fs unique data, PublishedHidden plainServices imageThere
    (hidesTooEarly ++ [.publishButton "A"]) fs unique data → data.location = "" := by
  obtain ⟨t, form, data, hrun, hform, hon, hdata, hlocation⟩ : ∃ t form data,
      run (step plainServices) imageThere hidesTooEarly = some t ∧ t.forms "A" = some form ∧
      form.isOn = true ∧ t.published plainServices "A" = some data ∧
      data.location = "12 rue Haute" := ⟨_, _, _, rfl, rfl, rfl, rfl, by decide⟩
  intro h
  have hempty := h hidesTooEarly "A" data ⟨[], t, form, rfl, hrun, hform, hon, hdata⟩
  rw [hlocation] at hempty
  exact absurd hempty (by decide)

end VoisinMalin
