import VoisinMalin.Library.StableSort
import VoisinMalin.AdList
import Mathlib.Data.String.Basic

/-! The order of the search list. `sortSegmentPressed` sorts by the selected segment, but an answer
always sorts by title, whichever segment is selected; so the list is in the order of the segment in
every state if and only if each answer that arrives while the distances are selected brings ads
whose order by title is one by distance, too, and no selection of the distances finds one that is no
number among several: a NaN is in no order with another number. -/

namespace VoisinMalin

open EventMachine Collect StableSort

variable {Double Location : Type}

/-- `a` may stand before `b` in a list that is sorted by title. -/
def TitleOrder (pl : Platform Double Location) (a b : DefaultAds Double) : Prop :=
  pl.titleBefore b.title a.title = false

instance (pl : Platform Double Location) : DecidableRel (TitleOrder pl) :=
  fun a b => inferInstanceAs (Decidable (pl.titleBefore b.title a.title = false))

/-- The distance of an ad is not NaN. -/
def HasNumber (pl : Platform Double Location) (ad : DefaultAds Double) : Prop :=
  pl.isNaN ad.sortDistance = false

def BothNumbers (pl : Platform Double Location) (a b : DefaultAds Double) : Prop :=
  HasNumber pl a ∧ HasNumber pl b

/-- `a` may stand before `b` in a list that is sorted by distance: its distance is `<=` the other. -/
def DistanceOrder (pl : Platform Double Location) (a b : DefaultAds Double) : Prop :=
  BothNumbers pl a b ∧ pl.nearer b.sortDistance a.sortDistance = false

instance (pl : Platform Double Location) : DecidableRel (DistanceOrder pl) :=
  fun a b => inferInstanceAs (Decidable ((pl.isNaN a.sortDistance = false ∧
    pl.isNaN b.sortDistance = false) ∧ pl.nearer b.sortDistance a.sortDistance = false))

/-- The list is in the order of the selected segment. -/
structure InSegmentOrder (pl : Platform Double Location) (s : ListState Double Location) : Prop where
  title : s.selectedSegmentIndex = 0 → s.privateAds.Pairwise (TitleOrder pl)
  distance : s.selectedSegmentIndex = 1 → s.privateAds.Pairwise (DistanceOrder pl)

/-- The ads that `loadData` has for an answer. -/
def found (pl : Platform Double Location) (location : Option Location) (docs : List Fields) :
    List (DefaultAds Double) :=
  docs.filterMap (kept (SearchListController.newad pl location))

/-- An answer with an ad that arrives while the distances are selected: of any two ads of the list
and the answer, the one that the sort by title puts first is not farther than the other. -/
def TitlesByDistance (pl : Platform Double Location) (s : ListState Double Location)
    (e : ListEvent Location) : Prop :=
  ∀ a docs, e = .answer a docs → s.selectedSegmentIndex = 1 → found pl s.location docs ≠ [] →
    (s.privateAds ++ found pl s.location docs).Pairwise (Placed (TitleOrder pl) (DistanceOrder pl))

/-- The distances are selected while none of them is NaN, or there is but one. -/
def NumbersSelected (pl : Platform Double Location) (s : ListState Double Location)
    (e : ListEvent Location) : Prop :=
  e = .sortSegmentPressed 1 → s.privateAds.Pairwise (BothNumbers pl)

/-- The order of Swift's `Double`: without NaN it is a strict weak order. -/
def NumberOrder (pl : Platform Double Location) : Prop :=
  StrictWeakOn (fun x => pl.isNaN x = false) pl.nearer

theorem sort_sorted {α : Type} {before : α → α → Bool} (h : StrictWeak before) (l : List α) :
    (sort before l).Pairwise fun a b => before b a = false := by
  have := h.total
  have := h.isTrans
  exact List.pairwise_insertionSort _ l

section Load

variable {pl : Platform Double Location} {location : Option Location} {docs : List Fields}
  {ads result : List (DefaultAds Double)} {R : DefaultAds Double → DefaultAds Double → Prop}

theorem titleOrder_total (h : StrictWeak pl.titleBefore) : Std.Total (TitleOrder pl) :=
  (h.comap DefaultAds.title).total

theorem titleOrder_isTrans (h : StrictWeak pl.titleBefore) :
    IsTrans (DefaultAds Double) (TitleOrder pl) :=
  (h.comap DefaultAds.title).isTrans

theorem sortByTitle_sorted (h : StrictWeak pl.titleBefore) (ads : List (DefaultAds Double)) :
    (sortByTitle pl ads).Pairwise (TitleOrder pl) :=
  sort_sorted (h.comap DefaultAds.title) ads

theorem allNumbers {a b : DefaultAds Double}
    (h : (a :: b :: ads).Pairwise (BothNumbers pl)) : ∀ ad ∈ a :: b :: ads, HasNumber pl ad := by
  have hfirst := (List.pairwise_cons.mp h).1
  intro ad had
  rcases List.mem_cons.mp had with rfl | had
  · exact (hfirst b List.mem_cons_self).1
  · exact (hfirst ad had).2

/-- The sort by distance puts a list in order exactly when it has no NaN among several ads. -/
theorem sortByDistance_sorted_iff (h : NumberOrder pl) (ads : List (DefaultAds Double)) :
    (sort (fun a b => pl.nearer a.sortDistance b.sortDistance) ads).Pairwise (DistanceOrder pl) ↔
      ads.Pairwise (BothNumbers pl) := by
  have hboth : (sort (fun a b => pl.nearer a.sortDistance b.sortDistance) ads).Pairwise
      (BothNumbers pl) ↔ ads.Pairwise (BothNumbers pl) :=
    (List.perm_insertionSort _ ads).pairwise_iff And.symm
  rw [← hboth]
  refine ⟨List.Pairwise.imp And.left, fun hsorted => hsorted.and ?_⟩
  match ads, hboth.mp hsorted with
  | [], _ => exact List.Pairwise.nil
  | [a], _ => exact List.pairwise_singleton _ a
  | a :: b :: ads, hads =>
    exact (h.comap DefaultAds.sortDistance).pairwise_insertionSort (allNumbers hads)

theorem loadData_found (hload : SearchListController.loadData pl location docs ads = .ok result) :
    result = (found pl location docs).foldl (fun l ad => sortByTitle pl (l ++ [ad])) ads :=
  collect_foldl hload

/-- The loop leaves a list by title, if it started from one or has added an ad. -/
theorem loadData_sorted (h : StrictWeak pl.titleBefore)
    (hload : SearchListController.loadData pl location docs ads = .ok result)
    (hads : ads.Pairwise (TitleOrder pl) ∨ found pl location docs ≠ []) :
    result.Pairwise (TitleOrder pl) := by
  rw [loadData_found hload]
  clear hload
  generalize found pl location docs = new at hads ⊢
  induction new generalizing ads with
  | nil => exact hads.resolve_right fun hne => hne rfl
  | cons ad new ih => exact ih (Or.inl (sortByTitle_sorted h _))

/-- The sorts of the loop do not change what holds between the ads once they are in title order. -/
theorem loadData_placed (h : StrictWeak pl.titleBefore)
    (hload : SearchListController.loadData pl location docs ads = .ok result) :
    result.Pairwise (Placed (TitleOrder pl) R) ↔
      (ads ++ found pl location docs).Pairwise (Placed (TitleOrder pl) R) := by
  have := titleOrder_total h
  have := titleOrder_isTrans h
  rw [loadData_found hload]
  clear hload
  generalize found pl location docs = new
  induction new generalizing ads with
  | nil => simp
  | cons ad new ih =>
    have hsort := placed_insertionSort_append (r := TitleOrder pl) (R := R)
      (l := ads ++ [ad]) (m := new)
    rw [List.append_assoc] at hsort
    exact ih.trans hsort

theorem loadData_unchanged (hload : SearchListController.loadData pl location docs ads = .ok result)
    (hfound : found pl location docs = []) : result = ads := by
  rw [loadData_found hload, hfound]
  rfl

/-- After an answer with an ad, any relation holds along the list exactly when it holds of each two
ads in title order. -/
theorem loadData_pairwise (h : StrictWeak pl.titleBefore)
    (hload : SearchListController.loadData pl location docs ads = .ok result)
    (hfound : found pl location docs ≠ []) :
    result.Pairwise R ↔
      (ads ++ found pl location docs).Pairwise (Placed (TitleOrder pl) R) := by
  have := titleOrder_total h
  have := titleOrder_isTrans h
  have hsorted := loadData_sorted h hload (Or.inr hfound)
  rw [← loadData_placed h hload, ← pairwise_insertionSort_iff (r := TitleOrder pl) (R := R),
    hsorted.insertionSort_eq]

end Load

section Step

open ListState

variable {pl : Platform Double Location} {s t : ListState Double Location}
  {e : ListEvent Location} {docs : List Fields}

theorem InSegmentOrder.of_eq (hs : InSegmentOrder pl s) (hads : t.privateAds = s.privateAds)
    (hsegment : t.selectedSegmentIndex = s.selectedSegmentIndex) : InSegmentOrder pl t := by
  constructor
  · rw [hads, hsegment]
    exact hs.title
  · rw [hads, hsegment]
    exact hs.distance

theorem answered_segment {c : ListController} (h : answered pl c docs s = some t) :
    t.selectedSegmentIndex = s.selectedSegmentIndex := by
  unfold answered at h
  split at h
  · contradiction
  · split at h <;>
    · cases h
      rfl

/-- A selection puts the list in the order of the segment, unless it is one by distance that finds a
NaN among several ads. -/
theorem sortSegmentPressed_order (htitle : StrictWeak pl.titleBefore) (hnearer : NumberOrder pl)
    (s : ListState Double Location) : InSegmentOrder pl (sortSegmentPressed pl s) ↔
      (s.selectedSegmentIndex = 1 → s.privateAds.Pairwise (BothNumbers pl)) := by
  unfold sortSegmentPressed
  split
  · rename_i hsegment
    constructor
    · intro _ hone
      rw [hsegment] at hone
      contradiction
    · refine fun _ => ⟨fun _ => sortByTitle_sorted htitle _, fun hone => ?_⟩
      rw [reloadData, hsegment] at hone
      contradiction
  · rename_i hsegment
    constructor
    · exact fun h _ => (sortByDistance_sorted_iff hnearer _).mp (h.distance hsegment)
    · intro hnumbers
      refine ⟨fun hzero => ?_, fun _ => ?_⟩
      · rw [reloadData, hsegment] at hzero
        contradiction
      · exact (sortByDistance_sorted_iff hnearer _).mpr (hnumbers hsegment)
  · rename_i hzero hone
    exact ⟨fun _ h => absurd h hone, fun _ => ⟨fun h => absurd h hzero, fun h => absurd h hone⟩⟩

/-- An answer leaves the list in the order of the segment exactly when, with the distances selected,
the order by title of all its ads is one by distance. -/
theorem answered_order (htitle : StrictWeak pl.titleBefore) (hs : InSegmentOrder pl s)
    (h : answered pl .search docs s = some t) :
    InSegmentOrder pl t ↔ (s.selectedSegmentIndex = 1 → found pl s.location docs ≠ [] →
      (s.privateAds ++ found pl s.location docs).Pairwise
        (Placed (TitleOrder pl) (DistanceOrder pl))) := by
  have hload := (answered_some h).1
  have hsegment := answered_segment h
  constructor
  · intro ht hone hfound
    exact (loadData_pairwise htitle hload hfound).mp (ht.distance (hsegment.trans hone))
  · intro hplaced
    constructor
    · intro hzero
      exact loadData_sorted htitle hload (Or.inl (hs.title (hsegment.symm.trans hzero)))
    · intro hone
      have hselected := hsegment.symm.trans hone
      by_cases hfound : found pl s.location docs = []
      · rw [loadData_unchanged hload hfound]
        exact hs.distance hselected
      · exact (loadData_pairwise htitle hload hfound).mpr (hplaced hselected hfound)

/-- What a step needs to leave the list in the order of the segment. -/
def KeepsOrder (pl : Platform Double Location) (s : ListState Double Location)
    (e : ListEvent Location) : Prop :=
  TitlesByDistance pl s e ∧ NumbersSelected pl s e

theorem step_inSegmentOrder (htitle : StrictWeak pl.titleBefore) (hnearer : NumberOrder pl)
    (hs : InSegmentOrder pl s) (h : step pl .search s e = some t) :
    InSegmentOrder pl t ↔ KeepsOrder pl s e := by
  cases e with
  | appear user =>
    cases h
    refine ⟨fun _ => ⟨fun _ _ he => by contradiction, fun he => by contradiction⟩, fun _ => ?_⟩
    exact ⟨fun _ => List.Pairwise.nil, fun _ => List.Pairwise.nil⟩
  | answer a docs =>
    simp only [step] at h
    split at h
    · obtain ⟨u, hu, hanswered⟩ := Option.bind_eq_some_iff.mp h
      obtain ⟨-, rfl⟩ := take_eq_some.mp hu
      have hu : InSegmentOrder pl { s with queries := s.queries.erase a } := hs.of_eq rfl rfl
      rw [answered_order htitle hu hanswered]
      constructor
      · refine fun hplaced => ⟨fun a' docs' he hone hfound => ?_, fun he => by contradiction⟩
        cases he
        exact hplaced hone hfound
      · exact fun hplaced => hplaced.1 a docs rfl
    · contradiction
  | fail a =>
    obtain ⟨-, rfl⟩ := take_eq_some.mp h
    exact ⟨fun _ => ⟨fun _ _ he => by contradiction, fun he => by contradiction⟩,
      fun _ => hs.of_eq rfl rfl⟩
  | locate location =>
    cases h
    exact ⟨fun _ => ⟨fun _ _ he => by contradiction, fun he => by contradiction⟩,
      fun _ => hs.of_eq rfl rfl⟩
  | sortSegmentPressed segment =>
    cases h
    rw [sortSegmentPressed_order htitle hnearer]
    constructor
    · refine fun hnumbers => ⟨fun _ _ he => by contradiction, fun he => ?_⟩
      exact hnumbers (ListEvent.sortSegmentPressed.inj he)
    · exact fun hkeeps hone => hkeeps.2 (congrArg ListEvent.sortSegmentPressed hone)

end Step

/-- The search list is in the order of the selected segment in every state of a run exactly when
each answer that arrives while the distances are selected has the order by title agree with the one
by distance, and no selection of the distances finds a NaN among several ads. -/
theorem inSegmentOrder_iff {pl : Platform Double Location} (htitle : StrictWeak pl.titleBefore)
    (hnearer : NumberOrder pl) (es : List (ListEvent Location)) :
    Always (ListState.step pl .search) (InSegmentOrder pl) ListState.fresh es ↔
      Along (ListState.step pl .search) (KeepsOrder pl) ListState.fresh es :=
  always_iff_along (I := fun _ => True) (fun _ _ _ _ _ => trivial)
    (fun _ _ _ _ hs h => step_inSegmentOrder htitle hnearer hs h) trivial
    ⟨fun _ => List.Pairwise.nil, fun _ => List.Pairwise.nil⟩

def wholeNumber (s : String) : Int :=
  (s.toList.foldl (fun n c => 10 * n + (c.toNat - '0'.toNat)) 0 : Nat)

/-- `flatEarth` with coordinates in digits. -/
def flatRoads : Platform Int (Int × Int) := { flatEarth with doubleValue := wholeNumber }

def adAt (title latitude : String) : Fields :=
  ({ AdData.sample title title alice.mail with
      gpsLocationLat := latitude, gpsLocationLong := "0" }).fields

/-- The list appears with the distances selected, and its query is answered by `docs`. -/
def byDistance (docs : List Fields) : List (ListEvent (Int × Int)) :=
  [.locate (0, 0), .sortSegmentPressed 1, .appear none, .answer ⟨0, .all⟩ docs]

theorem flatRoads_titleBefore : StrictWeak flatRoads.titleBefore := strictWeak_lt

theorem flatRoads_nearer : NumberOrder flatRoads := strictWeak_lt.on _

/-- Where the near ad has the earlier title, the list is in both orders. -/
theorem nearFirst_inOrder : Always (ListState.step flatRoads .search) (InSegmentOrder flatRoads)
    ListState.fresh (byDistance [adAt "Armoire" "1000", adAt "Velo" "9000"]) := by
  refine (inSegmentOrder_iff flatRoads_titleBefore flatRoads_nearer _).mpr ?_
  iterate 3 refine Along.cons rfl ⟨fun _ _ he => (nomatch he), fun _ => .nil⟩ ?_
  refine Along.cons rfl ⟨fun a docs he _ _ => ?_, fun he => nomatch he⟩ trivial
  cases he
  decide

/-- The far ad has the earlier title: the list shows it first. -/
theorem farFirst_byTitle : ∃ s, run (ListState.step flatRoads .search) ListState.fresh
      (byDistance [adAt "Armoire" "9000", adAt "Velo" "1000"]) = some s ∧
    ¬InSegmentOrder flatRoads s := by
  refine ⟨_, rfl, fun h => ?_⟩
  exact absurd (h.distance rfl) (by decide)

end VoisinMalin
