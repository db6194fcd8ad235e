import VoisinMalin.HiddenAddress

/-! The coordinates of a published ad. Two hidden labels hold them, with the text of the storyboard
until a location comes in, and `publishButton` only asks that the labels have a text; so an ad has
the coordinates of a location if and only if one has come in before the press. -/

namespace VoisinMalin

open EventMachine Visits

variable {Double : Type}

/-- After the events `fs` of `es` the form `unique` is published as `data`. -/
def PublishedAfter (sv : FormServices Double) (s : Visits) (es fs : List (FormEvent Double))
    (unique : String) (data : AdData) : Prop :=
  ∃ gs t, es = fs ++ .publishButton unique :: gs ∧ run (step sv) s fs = some t ∧
    t.published sv unique = some data

/-- The events bring the location to the form `unique`. -/
def Delivered (unique : String) (fs : List (FormEvent Double)) (location : Coordinate Double) : Prop :=
  ∃ locations, .didUpdateLocations unique locations ∈ fs ∧ location ∈ locations

/-- The location that an event leaves in the labels of the form `unique`. -/
def FormEvent.fix (unique : String) : FormEvent Double → Option (Coordinate Double)
  | .didUpdateLocations u locations => if unique = u then locations.getLast? else none
  | _ => none

/-- The last location that came in for the form `unique` in a run. -/
def lastFix (unique : String) (es : List (FormEvent Double)) : Option (Coordinate Double) :=
  lastOf (FormEvent.fix unique) es

section Fix

variable {unique : String} {es : List (FormEvent Double)} {location : Coordinate Double}

theorem lastFix_delivered (h : lastFix unique es = some location) :
    Delivered unique es location := by
  obtain ⟨e, he, hfix⟩ := lastOf_eq_some h
  cases e with
  | didUpdateLocations u locations =>
    simp only [FormEvent.fix] at hfix
    split at hfix
    · rename_i hu
      subst hu
      exact ⟨locations, he, List.mem_of_getLast? hfix⟩
    · contradiction
  | _ => contradiction

theorem delivered_lastFix (h : Delivered unique es location) :
    ∃ latest, lastFix unique es = some latest := by
  obtain ⟨locations, he, hmem⟩ := h
  refine lastOf_isSome he (b := locations.getLast (List.ne_nil_of_mem hmem)) ?_
  rw [FormEvent.fix, if_pos rfl]
  exact List.getLast?_eq_some_getLast _

end Fix

/-- The text of a hidden label: that of the storyboard, or the one of a location. -/
def labelText (text : Coordinate Double → String) (fix : Option (Coordinate Double)) : String :=
  (fix.map text).getD "Label"

/-- The hidden labels of the form `unique` are those of the location `fix`, and a form that has not
been loaded has none. -/
structure Fixed (sv : FormServices Double) (unique : String) (fix : Option (Coordinate Double))
    (s : Visits) : Prop where
  uuids : (s.forms unique).isSome → unique ∈ s.uuids
  unloaded : s.forms unique = none → fix = none
  labels : ∀ form, s.forms unique = some form →
    form.hiddenGPSLat = some (labelText (fun l => sv.text l.latitude) fix) ∧
    form.hiddenGPSLong = some (labelText (fun l => sv.text l.longitude) fix)

section Step

variable {sv : FormServices Double} {s t : Visits} {e : FormEvent Double} {unique : String}
  {fix : Option (Coordinate Double)}

theorem step_uuids (h : step sv s e = some t) : s.uuids ⊆ t.uuids := by
  cases step_stepped h with
  | loaded new state =>
    rw [state]
    exact Finset.subset_insert _ _
  | other rejected applies state => exact state.uuids.symm.subset
  | _ => simp_all [receive]

theorem geocoded_labels (form : Form) (placemarks : List Placemark) :
    (form.geocoded placemarks).hiddenGPSLat = form.hiddenGPSLat ∧
      (form.geocoded placemarks).hiddenGPSLong = form.hiddenGPSLong := by
  unfold Form.geocoded
  induction placemarks generalizing form with
  | nil => exact ⟨rfl, rfl⟩
  | cons p placemarks ih => exact ih { form with location := p.address, adsAddress := some p.address }

/-- Of the events only a location changes the hidden labels of a form. -/
theorem formAfter_labels (form : Form) :
    (formAfter sv unique form e).hiddenGPSLat =
        ((e.fix unique).map fun l => sv.text l.latitude).or form.hiddenGPSLat ∧
      (formAfter sv unique form e).hiddenGPSLong =
        ((e.fix unique).map fun l => sv.text l.longitude).or form.hiddenGPSLong := by
  cases e with
  | edit u title description price phone =>
    simp only [formAfter]
    split <;> exact ⟨rfl, rfl⟩
  | adressHidden u isOn =>
    simp only [formAfter]
    split <;> exact ⟨rfl, rfl⟩
  | didUpdateLocations u locations =>
    simp only [formAfter, FormEvent.fix]
    split
    · cases locations.getLast? <;> exact ⟨rfl, rfl⟩
    · exact ⟨rfl, rfl⟩
  | geocoded u placemarks =>
    simp only [formAfter]
    split
    · exact geocoded_labels form _
    · exact ⟨rfl, rfl⟩
  | _ => exact ⟨rfl, rfl⟩

/-- A location reaches a form that has been loaded. -/
theorem fix_loaded (h : step sv s e = some t) (hfix : e.fix unique ≠ none) :
    (s.forms unique).isSome := by
  cases e with
  | didUpdateLocations u locations =>
    obtain ⟨form, hform, -⟩ := Option.map_eq_some_iff.mp h
    by_cases hu : unique = u
    · simp [hu, hform]
    · simp [FormEvent.fix, hu] at hfix
  | _ => simp [FormEvent.fix] at hfix

theorem loads_new {form : Form} (h : step sv s e = some t) (hloads : e.loads unique = some form) :
    unique ∉ s.uuids ∧ unique ∈ t.uuids ∧ e.fix unique = none ∧
      form.hiddenGPSLat = some "Label" ∧ form.hiddenGPSLong = some "Label" := by
  obtain ⟨dev, rfl, rfl⟩ := loads_eq_some.mp hloads
  obtain ⟨hnew, ht⟩ := Option.ite_none_right_eq_some.mp h
  cases ht
  exact ⟨hnew.2, Finset.mem_insert_self _ _, rfl, rfl, rfl⟩

theorem step_fixed (hs : Fixed sv unique fix s) (h : step sv s e = some t) :
    Fixed sv unique ((e.fix unique).or fix) t := by
  have hforms := step_forms unique h
  cases hloads : e.loads unique with
  | some loaded =>
    obtain ⟨hnew, hold, hfix, hlat, hlong⟩ := loads_new h hloads
    have hnone : fix = none := by
      refine hs.unloaded ?_
      by_contra hsome
      exact hnew (hs.uuids (Option.isSome_iff_ne_none.mpr hsome))
    rw [hloads, Option.some_or] at hforms
    rw [hfix, hnone, Option.or_none]
    refine ⟨fun _ => hold, fun _ => rfl, fun form hform => ?_⟩
    rw [hforms] at hform
    cases hform
    exact ⟨hlat, hlong⟩
  | none =>
    rw [hloads, Option.none_or] at hforms
    refine ⟨fun hsome => ?_, fun hunloaded => ?_, fun form hform => ?_⟩
    · rw [hforms, Option.isSome_map] at hsome
      exact step_uuids h (hs.uuids hsome)
    · rw [hforms, Option.map_eq_none_iff] at hunloaded
      have hfix : e.fix unique = none := by
        by_contra hfix
        have hsome := fix_loaded h hfix
        simp [hunloaded] at hsome
      rw [hfix, Option.none_or]
      exact hs.unloaded hunloaded
    · rw [hforms] at hform
      obtain ⟨before, hbefore, rfl⟩ := Option.map_eq_some_iff.mp hform
      obtain ⟨hlat, hlong⟩ := hs.labels before hbefore
      have hlabels : (formAfter sv unique before e).hiddenGPSLat =
            ((e.fix unique).map fun l => sv.text l.latitude).or before.hiddenGPSLat ∧
          (formAfter sv unique before e).hiddenGPSLong =
            ((e.fix unique).map fun l => sv.text l.longitude).or before.hiddenGPSLong :=
        formAfter_labels before
      rw [hlabels.1, hlabels.2, hlat, hlong]
      cases e.fix unique <;> exact ⟨rfl, rfl⟩

end Step

section Run

variable {sv : FormServices Double} {s : Visits} {unique : String} {es fs : List (FormEvent Double)}
  {data : AdData}

/-- What is published has the texts of the last location, or those of the storyboard. -/
theorem publishedAfter_labels (hnew : ∀ unique, s.forms unique = none)
    (h : PublishedAfter sv s es fs unique data) :
    data.gpsLocationLat = labelText (fun l => sv.text l.latitude) (lastFix unique fs) ∧
      data.gpsLocationLong = labelText (fun l => sv.text l.longitude) (lastFix unique fs) := by
  obtain ⟨gs, t, -, hrun, hdata⟩ := h
  have hstart : Fixed sv unique none s :=
    ⟨fun hsome => by simp [hnew] at hsome, fun _ => rfl, fun form hform => by simp [hnew] at hform⟩
  have hfixed : Fixed sv unique ((lastOf (FormEvent.fix unique) fs).or none) t :=
    run_lastOf (P := fun fix => Fixed sv unique fix) (fun fix s e t hs h => step_fixed hs h) hstart
      hrun
  obtain ⟨form, hshown, hpublish⟩ := Option.bind_eq_some_iff.mp hdata
  obtain ⟨hlat, hlong⟩ := hfixed.labels form (shown_eq_some.mp hshown).1
  have hyields := Form.publish_yields hpublish
  rw [Option.or_none, hyields.gpsLocationLat, Option.some.injEq] at hlat
  rw [Option.or_none, hyields.gpsLocationLong, Option.some.injEq] at hlong
  exact ⟨hlat, hlong⟩

end Run

/-- The coordinates of `data` are the texts of one location that the events have brought to the form. -/
def HasFix (sv : FormServices Double) (unique : String) (fs : List (FormEvent Double))
    (data : AdData) : Prop :=
  ∃ location, Delivered unique fs location ∧ data.gpsLocationLat = sv.text location.latitude ∧
    data.gpsLocationLong = sv.text location.longitude

/-- Every ad of a run has the coordinates of a location that came in before its press exactly when
before each of these presses a location has come in at all. -/
theorem hasFix_iff (sv : FormServices Double) (ads : Collection) (uuids : Finset String)
    (session : DeviceID → Option User) (userMail url : DeviceID → Option String)
    (es : List (FormEvent Double)) :
    (∀ fs unique data, PublishedAfter sv (launch ads uuids session userMail url) es fs unique data →
      HasFix sv unique fs data) ↔
    ∀ fs unique data, PublishedAfter sv (launch ads uuids session userMail url) es fs unique data →
      ∃ location, Delivered unique fs location := by
  refine forall₃_congr fun fs unique data => forall_congr' fun h => ?_
  constructor
  · rintro ⟨location, hdelivered, -⟩
    exact ⟨location, hdelivered⟩
  · rintro ⟨location, hdelivered⟩
    obtain ⟨latest, hlatest⟩ := delivered_lastFix hdelivered
    obtain ⟨hlat, hlong⟩ := publishedAfter_labels (fun _ => rfl) h
    rw [hlatest] at hlat hlong
    exact ⟨latest, lastFix_delivered hlatest, hlat, hlong⟩

/-- Alice publishes before a location has come in. -/
def publishesTooEarly : List (FormEvent Nat) := [.viewDidLoad 0 "A", fills "A" "Velo"]

/-- Her ad has the texts of the storyboard as its coordinates. -/
theorem publishesTooEarly_label : (∃ data, PublishedAfter plainServices imageThere
      (publishesTooEarly ++ [.publishButton "A"]) publishesTooEarly "A" data ∧
      data.gpsLocationLat = "Label" ∧ data.gpsLocationLong = "Label") ∧
    ¬∀ fs unique data, PublishedAfter plainServices imageThere
      (publishesTooEarly ++ [.publishButton "A"]) fs unique data →
      HasFix plainServices unique fs data := by
  obtain ⟨t, data, hrun, hdata, hlat, hlong⟩ : ∃ t data,
      run (step plainServices) imageThere publishesTooEarly = some t ∧
      t.published plainServices "A" = some data ∧ data.gpsLocationLat = "Label" ∧
      data.gpsLocationLong = "Label" := ⟨_, _, rfl, rfl, by decide, by decide⟩
  have hpublished : PublishedAfter plainServices imageThere
      (publishesTooEarly ++ [.publishButton "A"]) publishesTooEarly "A" data :=
    ⟨[], t, rfl, hrun, hdata⟩
  refine ⟨⟨data, hpublished, hlat, hlong⟩, fun h => ?_⟩
  obtain ⟨location, ⟨locations, hmem, -⟩, -⟩ := h publishesTooEarly "A" data hpublished
  simp [publishesTooEarly, fills] at hmem

end VoisinMalin
