import VoisinMalin.SearchOrder

/-! The distances of the search list. `loadData` takes the location as it is when the answer comes,
0 kilometres standing for an unknown one, and a location fix changes no ad; so the fix and the
answer lead to the same list in both orders if and only if every ad of the answer is as near to the
fix as to an unknown location. -/

namespace VoisinMalin

open EventMachine Collect StableSort

variable {Double Location : Type}

/-- The rounded distance from `here` to an ad. -/
def kilometres (pl : Platform Double Location) (here : Location) (ad : DefaultAds Double) :
    Double :=
  pl.rounded (pl.thousandth (pl.distance here (pl.doubleValue ad.gpsLocationLat)
    (pl.doubleValue ad.gpsLocationLong)))

/-- The rounded distance of every ad while the location is unknown. -/
def unlocated (pl : Platform Double Location) : Double := pl.rounded (pl.thousandth pl.zero)

/-- Both lists are the same, and each ad has its distance from `here`. -/
structure SameDistances (pl : Platform Double Location) (here : Location)
    (ads ads' : List (DefaultAds Double)) : Prop where
  same : ads = ads'
  placed : ∀ ad ∈ ads, ad.sortDistance = kilometres pl here ad

section Newad

variable {pl : Platform Double Location} {here : Location} {data : Fields} {docs : List Fields}
  {ad : DefaultAds Double}

theorem newad_unlocated (h : SearchListController.newad pl none data = .ok (some ad)) :
    ad.sortDistance = unlocated pl := by
  unfold SearchListController.newad at h
  split at h
  · simp only [except_bind_ok] at h
    obtain ⟨lat, -, long, -, id, -, gpslat, -, gpslong, -, sortD, -, hpure⟩ := h
    cases hpure
    rfl
  · simp at h

/-- The location makes no difference to a document but for the distance of its ad. -/
theorem newad_located (pl : Platform Double Location) (here : Location) (data : Fields) :
    SearchListController.newad pl (some here) data =
      (SearchListController.newad pl none data).map
        (Option.map fun ad => { ad with sortDistance := kilometres pl here ad }) := by
  unfold SearchListController.newad
  split
  · simp only [forcedNSString, forcedString, forced]
    cases (data K.gpsLocationLat).bind Value.asString <;>
      cases (data K.gpsLocationLong).bind Value.asString <;>
      cases (data K.documentID).bind Value.asString <;>
      cases (data K.sortDistance).bind Value.asString <;> rfl
  · rfl

theorem mem_found {location : Option Location} : ad ∈ found pl location docs ↔
    ∃ data ∈ docs, SearchListController.newad pl location data = .ok (some ad) := by
  rw [found, List.mem_filterMap]
  refine exists_congr fun data => and_congr_right fun _ => ?_
  unfold kept
  cases SearchListController.newad pl location data <;> simp

/-- Where each ad is as near to `here` as to an unknown location, it makes no difference to the
loader whether the location is known. -/
theorem loadData_located (h : ∀ ad ∈ found pl none docs, kilometres pl here ad = unlocated pl)
    (ads : List (DefaultAds Double)) :
    SearchListController.loadData pl (some here) docs ads =
      SearchListController.loadData pl none docs ads := by
  refine collect_congr fun data hdata => ?_
  rw [newad_located]
  cases hnew : SearchListController.newad pl none data with
  | error e => rfl
  | ok o =>
    cases o with
    | none => rfl
    | some ad =>
      have hsame : kilometres pl here ad = ad.sortDistance := by
        rw [newad_unlocated hnew]
        exact h ad (mem_found.mpr ⟨data, hdata, hnew⟩)
      simp only [Except.map, Option.map_some, hsame]

end Newad

section Runs

open ListState

variable {pl : Platform Double Location} {here : Location} {docs : List Fields} {a : Asked}
  {s t t' : ListState Double Location}

theorem answer_loads (h : step pl .search s (.answer a docs) = some t) :
    SearchListController.loadData pl s.location docs s.privateAds = .ok t.privateAds := by
  simp only [step] at h
  split at h
  · obtain ⟨u, hu, hanswered⟩ := Option.bind_eq_some_iff.mp h
    obtain ⟨-, rfl⟩ := take_eq_some.mp hu
    exact (answered_some hanswered).1
  · contradiction

theorem run_fixFirst (hempty : s.privateAds = [])
    (h : run (step pl .search) s [.locate here, .answer a docs] = some t) :
    SearchListController.loadData pl (some here) docs [] = .ok t.privateAds := by
  obtain ⟨u, hu, hrest⟩ := run_cons.mp h
  cases hu
  obtain ⟨v, hv, hend⟩ := run_cons.mp hrest
  cases hend
  have hload := answer_loads hv
  simp only [hempty] at hload
  exact hload

theorem run_answerFirst (hunknown : s.location = none) (hempty : s.privateAds = [])
    (h : run (step pl .search) s [.answer a docs, .locate here] = some t) :
    SearchListController.loadData pl none docs [] = .ok t.privateAds := by
  obtain ⟨u, hu, hrest⟩ := run_cons.mp h
  obtain ⟨v, hv, hend⟩ := run_cons.mp hrest
  cases hend
  cases hv
  have hload := answer_loads hu
  simp only [hempty, hunknown] at hload
  exact hload

/-- The first location fix and the answer to the query lead to the same distances in both orders
exactly when every ad of the answer is as near to the fix as to an unknown location. -/
theorem sameDistances_iff (hunknown : s.location = none) (hempty : s.privateAds = [])
    (hfix : run (step pl .search) s [.locate here, .answer a docs] = some t)
    (hanswer : run (step pl .search) s [.answer a docs, .locate here] = some t') :
    SameDistances pl here t.privateAds t'.privateAds ↔
      ∀ ad ∈ found pl none docs, kilometres pl here ad = unlocated pl := by
  have hfixed := run_fixFirst hempty hfix
  have hunfixed := run_answerFirst hunknown hempty hanswer
  have hmem : ∀ ad, ad ∈ t'.privateAds ↔ ad ∈ found pl none docs := by
    intro ad
    rw [(collect_perm (sortByTitle_perm pl) hunfixed).mem_iff, List.nil_append]
    rfl
  have hzero : ∀ ad ∈ found pl none docs, ad.sortDistance = unlocated pl := by
    intro ad had
    obtain ⟨data, -, hnew⟩ := mem_found.mp had
    exact newad_unlocated hnew
  constructor
  · rintro ⟨hsame, hplaced⟩ ad had
    rw [hsame] at hplaced
    rw [← hplaced ad ((hmem ad).mpr had)]
    exact hzero ad had
  · intro h
    have hsame : t.privateAds = t'.privateAds := by
      rw [loadData_located h, hunfixed] at hfixed
      exact (Except.ok.inj hfixed).symm
    refine ⟨hsame, fun ad had => ?_⟩
    rw [hsame, hmem ad] at had
    rw [h ad had]
    exact hzero ad had

end Runs

/-- The state of the list after its first appearance. -/
def asked : ListState Int (Int × Int) := ListState.fresh.appear .search none

def velosAnswer (latitude : String) : ListEvent (Int × Int) :=
  .answer ⟨0, .all⟩ [adAt "Velo" latitude]

theorem sameDistances_here : ∃ t t',
    run (ListState.step flatRoads .search) asked [.locate (0, 0), velosAnswer "0"] = some t ∧
    run (ListState.step flatRoads .search) asked [velosAnswer "0", .locate (0, 0)] = some t' ∧
    SameDistances flatRoads (0, 0) t.privateAds t'.privateAds := by
  obtain ⟨t, hfix⟩ : ∃ t, run (ListState.step flatRoads .search) asked
      [.locate (0, 0), velosAnswer "0"] = some t := ⟨_, rfl⟩
  obtain ⟨t', hanswer⟩ : ∃ t', run (ListState.step flatRoads .search) asked
      [velosAnswer "0", .locate (0, 0)] = some t' := ⟨_, rfl⟩
  exact ⟨t, t', hfix, hanswer, (sameDistances_iff rfl rfl hfix hanswer).mpr (by decide)⟩

/-- An ad at 9 kilometres is at 0 when the fix comes after the answer. -/
theorem fixAfterAnswer_zero : ∃ t t',
    run (ListState.step flatRoads .search) asked [.locate (0, 0), velosAnswer "9000"] = some t ∧
    run (ListState.step flatRoads .search) asked [velosAnswer "9000", .locate (0, 0)] = some t' ∧
    t.privateAds.map DefaultAds.sortDistance = [9] ∧
    t'.privateAds.map DefaultAds.sortDistance = [0] ∧
    ¬SameDistances flatRoads (0, 0) t.privateAds t'.privateAds := by
  refine ⟨_, _, rfl, rfl, by decide, by decide, fun h => ?_⟩
  exact absurd (congrArg (List.map DefaultAds.sortDistance) h.same) (by decide)

end VoisinMalin
