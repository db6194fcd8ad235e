import VoisinMalin.Model
import VoisinMalin.Library.SortedMap
import Mathlib.Data.String.Basic
import Mathlib.Data.List.TakeWhile
import Mathlib.Data.Finset.Sort

/-! How the Firestore SDK changes the fields of one map. They are kept in ascending key order, and
`ApplyChanges` merges upserts and deletes into them in a single pass. The pass finds the deletes only
in their order, so one that is no field stands in the way of those after it. -/

namespace VoisinMalin

open SortedMap

abbrev Entries := List (String × Value)

/-- The order of `std::sort` in `SortFields`. -/
def keyLe (a b : String × Value) : Bool := decide (a.1 ≤ b.1)

mutual

/-- Sorting the fields by their keys and sorting within each field commute. -/
def SortFields : Value → Value
  | .map fields => .map ((SortEntries fields).mergeSort keyLe)
  | .array values => .array (SortValues values)
  | v => v

def SortValues : List Value → List Value
  | [] => []
  | v :: values => SortFields v :: SortValues values

def SortEntries : List (String × Value) → List (String × Value)
  | [] => []
  | (key, v) :: fields => (key, SortFields v) :: SortEntries fields

end

namespace ObjectValue

def CalculateSizeOfUnion (fields upserts : Entries) (deletes : Finset String) : ℕ :=
  upserts.length + fields.countP fun e => decide (e.1 ∉ deletes ∧ e.1 ∉ keys upserts)

/-- The `while` loop, which ends when `target_count` entries are there. -/
def ApplyChanges.loop : ℕ → Entries → Entries → List String → Entries
  | 0, _, _, _ => []
  | room + 1, (source_key, v) :: source, upserts, deletes =>
    if deletes.head? = some source_key then loop (room + 1) source upserts deletes.tail
    else
      match upserts with
      | (key, w) :: rest =>
        if key = source_key then (key, SortFields w) :: loop room source rest deletes
        else if source_key < key then (source_key, v) :: loop room source upserts deletes
        else (key, SortFields w) :: loop room ((source_key, v) :: source) rest deletes
      | [] => (source_key, v) :: loop room source [] deletes
  | room + 1, [], (key, w) :: upserts, deletes =>
    (key, SortFields w) :: loop room [] upserts deletes
  -- The source would read past the last upsert here.
  | _ + 1, [], [], _ => []
termination_by room source => room + source.length

def ApplyChanges (fields upserts : Entries) (deletes : Finset String) : Entries :=
  ApplyChanges.loop (CalculateSizeOfUnion fields upserts deletes) fields upserts deletes.sort

section Loop

open ApplyChanges

variable {room : ℕ} {source fields upserts : Entries} {deletes : List String} {key sk : String}
  {v : Value}

/-- The deletes that the loop gets to: the first one that is no field holds up those after it. -/
def removed (fields : Entries) (deletes : List String) : List String :=
  deletes.takeWhile fun d => decide (d ∈ keys fields)

def prepared (upserts : Entries) : Entries := upserts.map fun e => (e.1, SortFields e.2)

theorem removed_mem (h : key ∈ removed fields deletes) : key ∈ keys fields := by
  have hkey := List.mem_takeWhile_imp h
  simpa using hkey

/-- A delete is carried out when it and the deletes before it are fields. -/
theorem mem_removed (hdeletes : deletes.Pairwise (· < ·)) :
    key ∈ removed fields deletes ↔
      key ∈ deletes ∧ ∀ d ∈ deletes, d ≤ key → d ∈ keys fields := by
  unfold removed
  induction deletes with
  | nil => simp
  | cons d deletes ih =>
    obtain ⟨hfirst, hrest⟩ := List.pairwise_cons.mp hdeletes
    by_cases hd : d ∈ keys fields
    · rw [List.takeWhile_cons_of_pos (by simpa using hd), List.mem_cons, List.mem_cons, ih hrest]
      constructor
      · rintro (rfl | ⟨hmem, hall⟩)
        · refine ⟨Or.inl rfl, fun e he hle => ?_⟩
          rcases List.mem_cons.mp he with rfl | he
          · exact hd
          · exact absurd hle (hfirst e he).not_ge
        · refine ⟨Or.inr hmem, fun e he hle => ?_⟩
          rcases List.mem_cons.mp he with rfl | he
          · exact hd
          · exact hall e he hle
      · rintro ⟨rfl | hmem, hall⟩
        · exact Or.inl rfl
        · exact Or.inr ⟨hmem, fun e he hle => hall e (List.mem_cons_of_mem d he) hle⟩
    · rw [List.takeWhile_cons_of_neg (by simpa using hd)]
      simp only [List.not_mem_nil, false_iff, not_and]
      intro hkey hall
      refine hd (hall d List.mem_cons_self ?_)
      rcases List.mem_cons.mp hkey with rfl | hmem
      · exact le_rfl
      · exact (hfirst key hmem).le

theorem takeWhile_gt (h : ∀ d ∈ deletes, sk < d) :
    removed ((sk, v) :: source) deletes = removed source deletes := by
  unfold removed
  induction deletes with
  | nil => rfl
  | cons d deletes ih =>
    have hd : d ∈ keys ((sk, v) :: source) ↔ d ∈ keys source := by
      have hne := (h d List.mem_cons_self).ne'
      simp [keys, hne]
    rw [List.takeWhile_cons, List.takeWhile_cons, ih fun e he => h e (List.mem_cons_of_mem d he)]
    simp only [hd]

theorem removed_cons_of_head (hdeletes : deletes.Pairwise (· < ·)) (h : deletes.head? = some sk) :
    removed ((sk, v) :: source) deletes = sk :: removed source deletes.tail := by
  obtain ⟨ds, rfl⟩ : ∃ ds, deletes = sk :: ds := List.head?_eq_some_iff.mp h
  rw [List.tail_cons, ← takeWhile_gt (v := v) (List.pairwise_cons.mp hdeletes).1, removed,
    List.takeWhile_cons_of_pos (by simp [keys]), removed]

theorem removed_cons_of_ne (hsource : Sorted ((sk, v) :: source)) (hdeletes : deletes.Pairwise (· < ·))
    (h : deletes.head? ≠ some sk) :
    removed ((sk, v) :: source) deletes = removed source deletes := by
  cases deletes with
  | nil => rfl
  | cons d ds =>
    have hne : d ≠ sk := fun hd => h (by rw [hd]; rfl)
    by_cases hd : d ∈ keys source
    · obtain ⟨w, hw⟩ := mem_keys.mp hd
      have hlt : sk < d := (List.pairwise_cons.mp hsource).1 _ hw
      refine takeWhile_gt fun e he => ?_
      rcases List.mem_cons.mp he with rfl | he
      · exact hlt
      · exact hlt.trans ((List.pairwise_cons.mp hdeletes).1 e he)
    · have hd' : d ∉ keys ((sk, v) :: source) := by
        simp only [keys, List.map_cons, List.mem_cons, not_or]
        exact ⟨hne, hd⟩
      rw [removed, removed, List.takeWhile_cons_of_neg (by simpa using hd'),
        List.takeWhile_cons_of_neg (by simpa using hd)]

/-- The fields without those that the loop deletes. -/
def kept (fields : Entries) (deletes : List String) : Entries :=
  fields.filter fun e => decide (e.1 ∉ removed fields deletes)

theorem kept_cons_of_head (hsource : Sorted ((sk, v) :: source)) (hdeletes : deletes.Pairwise (· < ·))
    (h : deletes.head? = some sk) : kept ((sk, v) :: source) deletes = kept source deletes.tail := by
  unfold kept
  rw [removed_cons_of_head hdeletes h, List.filter_cons_of_neg (by simp)]
  refine List.filter_congr fun e he => decide_eq_decide.mpr ?_
  have hne : e.1 ≠ sk := ((List.pairwise_cons.mp hsource).1 e he).ne'
  simp [hne]

theorem kept_cons_of_ne (hsource : Sorted ((sk, v) :: source)) (hdeletes : deletes.Pairwise (· < ·))
    (h : deletes.head? ≠ some sk) :
    kept ((sk, v) :: source) deletes = (sk, v) :: kept source deletes := by
  unfold kept
  rw [removed_cons_of_ne hsource hdeletes h, List.filter_cons_of_pos]
  simp only [decide_eq_true_eq]
  intro hmem
  obtain ⟨w, hw⟩ := mem_keys.mp (removed_mem hmem)
  exact absurd ((List.pairwise_cons.mp hsource).1 _ hw) (lt_irrefl sk)

/-- The loop is the merge of what it keeps with the upserts, cut off at `target_count`. -/
theorem loop_eq (hsource : Sorted source) (hdeletes : deletes.Pairwise (· < ·)) :
    loop room source upserts deletes = (merge (kept source deletes) (prepared upserts)).take room := by
  fun_induction loop room source upserts deletes with
  | case1 => rw [List.take_zero]
  | case2 room sk v source upserts deletes hhead ih =>
    rw [kept_cons_of_head hsource hdeletes hhead]
    exact ih (List.pairwise_cons.mp hsource).2 hdeletes.tail
  | case3 room v source deletes key w rest hhead ih =>
    rw [kept_cons_of_ne hsource hdeletes hhead, ih (List.pairwise_cons.mp hsource).2 hdeletes]
    simp [prepared, merge]
  | case4 room sk v source deletes hhead key w rest hne hlt ih =>
    rw [kept_cons_of_ne hsource hdeletes hhead, ih (List.pairwise_cons.mp hsource).2 hdeletes]
    simp [prepared, merge, hne, hlt]
  | case5 room sk v source deletes hhead key w rest hne hlt ih =>
    rw [kept_cons_of_ne hsource hdeletes hhead] at ih ⊢
    rw [ih hsource hdeletes]
    simp [prepared, merge, hne, hlt]
  | case6 room sk v source deletes hhead ih =>
    rw [kept_cons_of_ne hsource hdeletes hhead, ih (List.pairwise_cons.mp hsource).2 hdeletes]
    simp [prepared]
  | case7 room key w upserts deletes ih =>
    rw [ih hsource hdeletes]
    simp [prepared, kept, merge]
  | case8 => simp [prepared, kept]

end Loop

section Changes

variable {fields upserts : Entries} {deletes : Finset String} {key : String}

theorem ascending (deletes : Finset String) : deletes.sort.Pairwise (· < ·) :=
  (deletes.sortedLT_sort).pairwise

/-- All that the loop can write: more than the changed fields where deletes are held up. -/
def merged (fields upserts : Entries) (deletes : Finset String) : Entries :=
  merge (kept fields deletes.sort) (prepared upserts)

theorem keys_prepared : keys (prepared upserts) = keys upserts := by
  simp [keys, prepared]

theorem find_prepared : find key (prepared upserts) = (find key upserts).map SortFields := by
  induction upserts with
  | nil => rfl
  | cons e upserts ih =>
    rw [prepared, List.map_cons, ← prepared, find_cons, find_cons, ih]
    split <;> rfl

theorem sorted_prepared (h : Sorted upserts) : Sorted (prepared upserts) :=
  List.pairwise_map.mpr h

theorem sorted_merged (hfields : Sorted fields) (hupserts : Sorted upserts) :
    Sorted (merged fields upserts deletes) :=
  sorted_merge (hfields.filter _) (sorted_prepared hupserts)

theorem find_merged (hupserts : Sorted upserts) : find key (merged fields upserts deletes) =
    (find key (prepared upserts)).or
      (if key ∈ removed fields deletes.sort then none else find key fields) := by
  rw [merged, find_merge (sorted_prepared hupserts), kept,
    find_filter fun k : String => decide (k ∉ removed fields (deletes.sort (· ≤ ·)))]
  simp

theorem mem_keys_merged (hupserts : Sorted upserts) : key ∈ keys (merged fields upserts deletes) ↔
    (key ∈ keys fields ∧ key ∉ removed fields deletes.sort) ∨ key ∈ keys upserts := by
  rw [merged, mem_keys_merge (sorted_prepared hupserts), keys_prepared, kept,
    mem_keys_filter fun k : String => decide (k ∉ removed fields (deletes.sort (· ≤ ·))),
    decide_eq_true_eq]

theorem mem_removed_sort : key ∈ removed fields deletes.sort ↔
    key ∈ deletes ∧ ∀ d ∈ deletes, d ≤ key → d ∈ keys fields := by
  simp only [mem_removed (ascending deletes), Finset.mem_sort]

/-- The fields once changed as asked. -/
def changed (fields upserts : Entries) (deletes : Finset String) : Entries :=
  merge (fields.filter fun e => decide (e.1 ∉ deletes)) (prepared upserts)

theorem sorted_changed (hfields : Sorted fields) (hupserts : Sorted upserts) :
    Sorted (changed fields upserts deletes) :=
  sorted_merge (hfields.filter _) (sorted_prepared hupserts)

theorem find_changed (hupserts : Sorted upserts) (hdisjoint : ∀ d ∈ deletes, d ∉ keys upserts) :
    find key (changed fields upserts deletes) =
      if key ∈ deletes then none else (find key (prepared upserts)).or (find key fields) := by
  rw [changed, find_merge (sorted_prepared hupserts), find_filter fun k => decide (k ∉ deletes)]
  by_cases hkey : key ∈ deletes
  · have hnone : find key (prepared upserts) = none := by
      rw [find_eq_none, keys_prepared]
      exact hdisjoint key hkey
    simp [hkey, hnone]
  · simp [hkey]

theorem length_changed (hfields : Sorted fields) (hupserts : Sorted upserts) :
    (changed fields upserts deletes).length = CalculateSizeOfUnion fields upserts deletes := by
  rw [changed, length_merge (hfields.filter _) (sorted_prepared hupserts), keys_prepared,
    CalculateSizeOfUnion, List.countP_eq_length_filter, List.filter_filter]
  simp [prepared, Bool.and_comm]

/-- `ApplyChanges` takes what it can write, up to the size of the changed fields. -/
theorem applyChanges_eq (hfields : Sorted fields) (hupserts : Sorted upserts) :
    ApplyChanges fields upserts deletes =
      (merged fields upserts deletes).take (changed fields upserts deletes).length := by
  rw [ApplyChanges, loop_eq hfields (ascending deletes), length_changed hfields hupserts, merged]

theorem sorted_applyChanges (hfields : Sorted fields) (hupserts : Sorted upserts) :
    Sorted (ApplyChanges fields upserts deletes) := by
  rw [applyChanges_eq hfields hupserts]
  exact (sorted_merged hfields hupserts).sublist (List.take_sublist _ _)

theorem changed_eq_filter (hfields : Sorted fields) (hupserts : Sorted upserts)
    (hdisjoint : ∀ d ∈ deletes, d ∉ keys upserts) : changed fields upserts deletes =
      (merged fields upserts deletes).filter fun e => decide (e.1 ∉ deletes) := by
  refine ext (sorted_changed hfields hupserts) ((sorted_merged hfields hupserts).filter _) fun k => ?_
  rw [find_changed hupserts hdisjoint, find_filter fun k => decide (k ∉ deletes),
    find_merged hupserts]
  by_cases hk : k ∈ deletes
  · simp [hk]
  · have hnot : k ∉ removed fields deletes.sort := fun h => hk (mem_removed_sort.mp h).1
    simp [hk, hnot]

/-- No delete of a field comes after the delete of a missing one, unless it comes after all the
fields that remain as well. -/
def Unobstructed (fields upserts : Entries) (deletes : Finset String) : Prop :=
  ∀ d ∈ deletes, d ∉ keys fields → ∀ d' ∈ deletes, d < d' → d' ∈ keys fields →
    ∀ k, k ∉ deletes → k ∈ keys fields ∨ k ∈ keys upserts → k < d'

theorem unobstructed_iff (hupserts : Sorted upserts) (hdisjoint : ∀ d ∈ deletes, d ∉ keys upserts) :
    (∀ k ∈ keys (merged fields upserts deletes), decide (k ∉ deletes) = true →
      ∀ k' ∈ keys (merged fields upserts deletes), decide (k' ∉ deletes) = false → k < k') ↔
      Unobstructed fields upserts deletes := by
  simp only [mem_keys_merged hupserts, mem_removed_sort, decide_eq_true_eq, decide_eq_false_iff_not,
    not_not]
  constructor
  · intro h d hd hdfields d' hd' hlt hd'fields k hk hmem
    refine h k ?_ hk d' (Or.inl ⟨hd'fields, fun hremoved => ?_⟩) hd'
    · exact hmem.imp_left fun hk' => ⟨hk', fun hremoved => hk hremoved.1⟩
    · exact hdfields (hremoved.2 d hd hlt.le)
  · intro h k hmem hk k' hmem' hk'
    obtain ⟨hfield, hnot⟩ := hmem'.resolve_right (hdisjoint k' hk')
    have hheld : ∃ d ∈ deletes, d ≤ k' ∧ d ∉ keys fields := by
      by_contra hall
      refine hnot ⟨hk', fun d hd hle => ?_⟩
      by_contra hdfields
      exact hall ⟨d, hd, hle, hdfields⟩
    obtain ⟨d, hd, hle, hdfields⟩ := hheld
    have hne : d ≠ k' := fun heq => hdfields (heq ▸ hfield)
    exact h d hd hdfields k' hk' (lt_of_le_of_ne hle hne) hfield k hk (hmem.imp_left And.left)

theorem length_applyChanges (hfields : Sorted fields) (hupserts : Sorted upserts)
    (hdisjoint : ∀ d ∈ deletes, d ∉ keys upserts) :
    (ApplyChanges fields upserts deletes).length = CalculateSizeOfUnion fields upserts deletes := by
  rw [applyChanges_eq hfields hupserts, List.length_take, ← length_changed hfields hupserts,
    min_eq_left]
  rw [changed_eq_filter hfields hupserts hdisjoint]
  exact List.length_filter_le _ _

theorem applyChanges_eq_changed (hfields : Sorted fields) (hupserts : Sorted upserts)
    (hdisjoint : ∀ d ∈ deletes, d ∉ keys upserts) :
    ApplyChanges fields upserts deletes = changed fields upserts deletes ↔
      Unobstructed fields upserts deletes := by
  rw [applyChanges_eq hfields hupserts, ← unobstructed_iff hupserts hdisjoint,
    ← take_filter_iff (sorted_merged hfields hupserts) fun k => decide (k ∉ deletes),
    ← changed_eq_filter hfields hupserts hdisjoint]

/-- The single pass over the fields never reads past the last upsert, and it leaves the fields
changed as asked exactly when no missing delete obstructs another one. -/
theorem applyChanges_iff (hfields : Sorted fields) (hupserts : Sorted upserts)
    (hdisjoint : ∀ d ∈ deletes, d ∉ keys upserts) :
    (ApplyChanges fields upserts deletes).length = CalculateSizeOfUnion fields upserts deletes ∧
      ((∀ key, find key (ApplyChanges fields upserts deletes) =
          if key ∈ deletes then none else (find key (prepared upserts)).or (find key fields)) ↔
        Unobstructed fields upserts deletes) := by
  refine ⟨length_applyChanges hfields hupserts hdisjoint, ?_⟩
  rw [← applyChanges_eq_changed hfields hupserts hdisjoint]
  constructor
  · intro h
    refine ext (sorted_applyChanges hfields hupserts) (sorted_changed hfields hupserts) fun k => ?_
    rw [h, find_changed hupserts hdisjoint]
  · intro h key
    rw [h, find_changed hupserts hdisjoint]

/-- An ad that Bob and Eve have among their favourites. -/
def markedAd : Entries := [("Title", .string "Velo"), ("uidBob", .string ""), ("uidEve", .string "")]

/-- Alice has no mark on the ad, so a patch that removes her mark and Bob's goes wrong. -/
theorem applyChanges_iff_markedAd : ¬∀ key,
    find key (ApplyChanges markedAd [] {"uidAlice", "uidBob"}) =
      if key ∈ ({"uidAlice", "uidBob"} : Finset String) then none
      else (find key (prepared [])).or (find key markedAd) := by
  have hiff := (applyChanges_iff (show Sorted markedAd by decide) List.Pairwise.nil
    (show ∀ d ∈ ({"uidAlice", "uidBob"} : Finset String), d ∉ keys [] by simp [keys])).2
  rw [hiff]
  intro h
  have hlt := h "uidAlice" (by decide) (by decide) "uidBob" (by decide) (by decide) (by decide)
    "uidEve" (by decide) (by decide)
  revert hlt
  decide

end Changes

end ObjectValue

end VoisinMalin
