import Mathlib.Data.List.Basic
import Mathlib.Order.Lattice

/-! Maps as lists of entries in strictly ascending key order: lookup, the merge of a map with its
updates, and when a prefix of a map is the part of it that a predicate on the keys selects. -/

namespace SortedMap

variable {κ β : Type*} [LinearOrder κ]

def find (k : κ) : List (κ × β) → Option β
  | [] => none
  | (a, v) :: l => if a = k then some v else find k l

def keys (l : List (κ × β)) : List κ := l.map Prod.fst

/-- The keys are strictly ascending. -/
abbrev Sorted (l : List (κ × β)) : Prop := l.Pairwise fun a b => a.1 < b.1

/-- The entries of both maps, those of the second where both have a key. -/
def merge : List (κ × β) → List (κ × β) → List (κ × β)
  | [], upserts => upserts
  | e :: source, [] => e :: source
  | (a, v) :: source, (b, w) :: upserts =>
    if b = a then (b, w) :: merge source upserts
    else if a < b then (a, v) :: merge source ((b, w) :: upserts)
    else (b, w) :: merge ((a, v) :: source) upserts
termination_by source upserts => source.length + upserts.length

variable {k : κ} {v : β} {l l' source upserts : List (κ × β)} {e : κ × β}

@[simp] theorem find_nil : find k ([] : List (κ × β)) = none := rfl

theorem find_cons : find k (e :: l) = if e.1 = k then some e.2 else find k l := rfl

omit [LinearOrder κ] in
@[simp] theorem mem_keys : k ∈ keys l ↔ ∃ v, (k, v) ∈ l := by
  simp [keys]

theorem find_eq_none : find k l = none ↔ k ∉ keys l := by
  induction l with
  | nil => simp [keys]
  | cons e l ih =>
    rw [find_cons, keys, List.map_cons, List.mem_cons, not_or, ← keys, ← ih]
    split
    · rename_i h
      simp [h]
    · rename_i h
      simp [Ne.symm h]

theorem find_of_lt (h : ∀ e ∈ l, k < e.1) : find k l = none := by
  rw [find_eq_none, mem_keys]
  rintro ⟨v, hmem⟩
  exact absurd (h _ hmem) (lt_irrefl k)

theorem mem_of_find (h : find k l = some v) : (k, v) ∈ l := by
  induction l with
  | nil => contradiction
  | cons e l ih =>
    rw [find_cons] at h
    split at h
    · rename_i hk
      cases h
      rw [← hk]
      exact List.mem_cons_self
    · exact List.mem_cons_of_mem _ (ih h)

theorem find_of_mem (hl : Sorted l) (h : (k, v) ∈ l) : find k l = some v := by
  induction l with
  | nil => contradiction
  | cons e l ih =>
    obtain ⟨hfirst, hrest⟩ := List.pairwise_cons.mp hl
    rw [find_cons]
    rcases List.mem_cons.mp h with rfl | hmem
    · rw [if_pos rfl]
    · rw [if_neg (ne_of_lt (hfirst _ hmem)), ih hrest hmem]

/-- Entries with distinct keys are found, in whatever order they are. -/
theorem find_iff_mem (h : (keys l).Nodup) : find k l = some v ↔ (k, v) ∈ l := by
  refine ⟨mem_of_find, fun hmem => ?_⟩
  induction l with
  | nil => contradiction
  | cons e l ih =>
    obtain ⟨hfirst, hrest⟩ := List.nodup_cons.mp h
    rw [find_cons]
    rcases List.mem_cons.mp hmem with rfl | hmem
    · rw [if_pos rfl]
    · have hne : e.1 ≠ k := fun hk => hfirst (by rw [hk]; exact mem_keys.mpr ⟨v, hmem⟩)
      rw [if_neg hne, ih hrest hmem]

theorem find_perm (h : (keys l).Nodup) (hperm : l.Perm l') : find k l = find k l' := by
  have h' : (keys l').Nodup := (hperm.map Prod.fst).nodup_iff.mp h
  apply Option.ext
  intro v
  rw [find_iff_mem h, find_iff_mem h', hperm.mem_iff]

/-- Maps with the same entries are the same list. -/
theorem ext (hl : Sorted l) (hl' : Sorted l') (h : ∀ k, find k l = find k l') : l = l' := by
  have hmem : ∀ e : κ × β, e ∈ l ↔ e ∈ l' := by
    rintro ⟨k, v⟩
    constructor <;> intro he
    · exact mem_of_find ((h k).symm.trans (find_of_mem hl he))
    · exact mem_of_find ((h k).trans (find_of_mem hl' he))
  have hnodup {m : List (κ × β)} (hm : Sorted m) : m.Nodup := hm.imp fun hlt heq => by
    exact absurd hlt (heq ▸ lt_irrefl _)
  refine List.Perm.eq_of_pairwise (fun a b _ _ hab hba => ?_) hl hl' ?_
  · exact absurd hab (lt_asymm hba)
  · exact (List.perm_ext_iff_of_nodup (hnodup hl) (hnodup hl')).mpr hmem

theorem find_filter (p : κ → Bool) :
    find k (l.filter fun e => p e.1) = if p k then find k l else none := by
  induction l with
  | nil => simp
  | cons e l ih =>
    rw [List.filter_cons, find_cons]
    by_cases he : e.1 = k
    · subst he
      split
      · simp [find_cons]
      · rename_i hp
        rw [ih, if_neg hp]
    · split <;> simp [find_cons, he, ih]

omit [LinearOrder κ] in
theorem mem_keys_filter (p : κ → Bool) :
    k ∈ keys (l.filter fun e => p e.1) ↔ k ∈ keys l ∧ p k = true := by
  simp [mem_keys, List.mem_filter]

theorem Sorted.filter (h : Sorted l) (p : κ × β → Bool) : Sorted (l.filter p) :=
  h.sublist List.filter_sublist

@[simp] theorem merge_nil : merge source [] = source := by
  cases source <;> rw [merge]

theorem forall_merge {P : κ × β → Prop} (hsource : ∀ e ∈ source, P e)
    (hupserts : ∀ e ∈ upserts, P e) (h : e ∈ merge source upserts) : P e := by
  fun_induction merge source upserts with
  | case1 upserts => exact hupserts e h
  | case2 a source => exact hsource e h
  | case3 v source a w upserts ih =>
    rcases List.mem_cons.mp h with rfl | h
    · exact hupserts _ List.mem_cons_self
    · exact ih (fun e he => hsource e (List.mem_cons_of_mem _ he))
        (fun e he => hupserts e (List.mem_cons_of_mem _ he)) h
  | case4 a v source b w upserts hne hlt ih =>
    rcases List.mem_cons.mp h with rfl | h
    · exact hsource _ List.mem_cons_self
    · exact ih (fun e he => hsource e (List.mem_cons_of_mem _ he)) hupserts h
  | case5 a v source b w upserts hne hlt ih =>
    rcases List.mem_cons.mp h with rfl | h
    · exact hupserts _ List.mem_cons_self
    · exact ih hsource (fun e he => hupserts e (List.mem_cons_of_mem _ he)) h

theorem find_merge (h : Sorted upserts) :
    find k (merge source upserts) = (find k upserts).or (find k source) := by
  fun_induction merge source upserts with
  | case1 upserts => simp
  | case2 a source => simp
  | case3 v source a w upserts ih =>
    rw [find_cons, find_cons, find_cons, ih (List.pairwise_cons.mp h).2]
    split <;> simp
  | case4 a v source b w upserts hne hlt ih =>
    rw [find_cons, find_cons (l := source), ih h]
    split
    · rename_i hk
      have hnone : find k ((b, w) :: upserts) = none := find_of_lt fun e he => by
        rcases List.mem_cons.mp he with rfl | he
        · exact hk ▸ hlt
        · exact hk ▸ hlt.trans ((List.pairwise_cons.mp h).1 e he)
      rw [hnone, Option.none_or]
    · rfl
  | case5 a v source b w upserts hne hlt ih =>
    rw [find_cons, find_cons (l := upserts), ih (List.pairwise_cons.mp h).2]
    split <;> simp

theorem mem_keys_merge (h : Sorted upserts) :
    k ∈ keys (merge source upserts) ↔ k ∈ keys source ∨ k ∈ keys upserts := by
  rw [← not_iff_not, not_or, ← find_eq_none, ← find_eq_none, ← find_eq_none, find_merge h,
    Option.or_eq_none_iff, and_comm]

theorem sorted_merge (hsource : Sorted source) (hupserts : Sorted upserts) :
    Sorted (merge source upserts) := by
  fun_induction merge source upserts with
  | case1 upserts => exact hupserts
  | case2 a source => exact hsource
  | case3 v source a w upserts ih =>
    obtain ⟨hfirst, hsource⟩ := List.pairwise_cons.mp hsource
    obtain ⟨hfirst', hupserts⟩ := List.pairwise_cons.mp hupserts
    exact List.pairwise_cons.mpr
      ⟨fun e he => forall_merge hfirst hfirst' he, ih hsource hupserts⟩
  | case4 a v source b w upserts hne hlt ih =>
    obtain ⟨hfirst, hsource⟩ := List.pairwise_cons.mp hsource
    refine List.pairwise_cons.mpr
      ⟨fun e he => forall_merge hfirst (fun e he => ?_) he, ih hsource hupserts⟩
    rcases List.mem_cons.mp he with rfl | he
    · exact hlt
    · exact hlt.trans ((List.pairwise_cons.mp hupserts).1 e he)
  | case5 a v source b w upserts hne hlt ih =>
    obtain ⟨hfirst, hupserts⟩ := List.pairwise_cons.mp hupserts
    have hba : b < a := lt_of_le_of_ne (not_lt.mp hlt) hne
    refine List.pairwise_cons.mpr
      ⟨fun e he => forall_merge (fun e he => ?_) hfirst he, ih hsource hupserts⟩
    rcases List.mem_cons.mp he with rfl | he
    · exact hba
    · exact hba.trans ((List.pairwise_cons.mp hsource).1 e he)

theorem filter_not_mem {b : κ} {w : β} (h : ∀ e ∈ source, b < e.1) :
    (source.filter fun e => decide (e.1 ∉ keys ((b, w) :: upserts))) =
      source.filter fun e => decide (e.1 ∉ keys upserts) := by
  refine List.filter_congr fun e he => decide_eq_decide.mpr ?_
  have hne : e.1 ≠ b := (ne_of_lt (h e he)).symm
  simp only [keys, List.map_cons, List.mem_cons, hne, false_or]

theorem length_merge (hsource : Sorted source) (hupserts : Sorted upserts) :
    (merge source upserts).length =
      upserts.length + (source.filter fun e => decide (e.1 ∉ keys upserts)).length := by
  fun_induction merge source upserts with
  | case1 upserts => simp
  | case2 a source => simp [keys]
  | case3 v source a w upserts ih =>
    obtain ⟨hfirst, hsource⟩ := List.pairwise_cons.mp hsource
    rw [List.length_cons, ih hsource (List.pairwise_cons.mp hupserts).2,
      List.filter_cons_of_neg (by simp [keys]), filter_not_mem hfirst, List.length_cons]
    omega
  | case4 a v source b w upserts hne hlt ih =>
    have hnot : a ∉ keys ((b, w) :: upserts) := find_eq_none.mp (find_of_lt fun e he => by
      rcases List.mem_cons.mp he with rfl | he
      · exact hlt
      · exact hlt.trans ((List.pairwise_cons.mp hupserts).1 e he))
    rw [List.length_cons, ih (List.pairwise_cons.mp hsource).2 hupserts,
      List.filter_cons_of_pos (by simpa using hnot)]
    simp only [List.length_cons]
    omega
  | case5 a v source b w upserts hne hlt ih =>
    have hba : b < a := lt_of_le_of_ne (not_lt.mp hlt) hne
    rw [List.length_cons, ih hsource (List.pairwise_cons.mp hupserts).2, filter_not_mem,
      List.length_cons]
    · omega
    · intro e he
      rcases List.mem_cons.mp he with rfl | he
      · exact hba
      · exact hba.trans ((List.pairwise_cons.mp hsource).1 e he)

/-- The prefix as long as the selected part is the selected part exactly when what is selected comes
before what is not. -/
theorem take_filter {α : Type*} {p : α → Bool} {l : List α} :
    l.take (l.filter p).length = l.filter p ↔
      l.Pairwise fun a b => p b = true → p a = true := by
  induction l with
  | nil => simp
  | cons a l ih =>
    rw [List.pairwise_cons]
    by_cases ha : p a = true
    · rw [List.filter_cons_of_pos ha, List.length_cons, List.take_succ_cons, List.cons.injEq, ih]
      simp [ha]
    · rw [List.filter_cons_of_neg ha]
      constructor
      · intro h
        have hnone : l.filter p = [] := by
          cases hfilter : l.filter p with
          | nil => rfl
          | cons b bs =>
            rw [hfilter, List.length_cons, List.take_succ_cons, List.cons.injEq] at h
            have hb : b ∈ l.filter p := hfilter ▸ List.mem_cons_self
            exact absurd (h.1 ▸ (List.mem_filter.mp hb).2) ha
        have hl : ∀ b ∈ l, ¬p b = true := List.filter_eq_nil_iff.mp hnone
        refine ⟨fun b hb hpb => absurd hpb (hl b hb), ?_⟩
        exact ih.mp (by rw [hnone]; rfl)
      · rintro ⟨hfirst, -⟩
        have hnone : l.filter p = [] :=
          List.filter_eq_nil_iff.mpr fun b hb hpb => ha (hfirst b hb hpb)
        rw [hnone]
        rfl

theorem take_filter_iff (h : Sorted l) (p : κ → Bool) :
    l.take (l.filter fun e => p e.1).length = l.filter (fun e => p e.1) ↔
      ∀ k ∈ keys l, p k = true → ∀ k' ∈ keys l, p k' = false → k < k' := by
  rw [take_filter]
  constructor
  · intro hpairs k hk hpk k' hk' hpk'
    obtain ⟨v, hv⟩ := mem_keys.mp hk
    obtain ⟨v', hv'⟩ := mem_keys.mp hk'
    obtain ⟨i, hi, hvi⟩ := List.mem_iff_getElem.mp hv
    obtain ⟨j, hj, hvj⟩ := List.mem_iff_getElem.mp hv'
    rcases Nat.lt_trichotomy i j with hij | rfl | hji
    · have hlt := List.pairwise_iff_getElem.mp h i j hi hj hij
      rwa [hvi, hvj] at hlt
    · rw [hvi] at hvj
      cases hvj
      rw [hpk] at hpk'
      contradiction
    · have hsame := List.pairwise_iff_getElem.mp hpairs j i hj hi hji
      rw [hvi, hvj] at hsame
      rw [hsame hpk] at hpk'
      contradiction
  · intro hbefore
    refine h.imp_of_mem fun {a b} ha hb hlt hpb => ?_
    by_contra hpa
    have hba := hbefore b.1 (mem_keys.mpr ⟨b.2, hb⟩) hpb a.1 (mem_keys.mpr ⟨a.2, ha⟩)
      (Bool.eq_false_iff.mpr hpa)
    exact absurd hlt (lt_asymm hba)

section Scan

variable {α : Type*} {p : α → Bool} {as : List α}

theorem takeWhile_eq_filter (h : as.Pairwise fun a b => p b = true → p a = true) :
    as.takeWhile p = as.filter p := by
  induction as with
  | nil => rfl
  | cons a as ih =>
    obtain ⟨hfirst, hrest⟩ := List.pairwise_cons.mp h
    by_cases ha : p a = true
    · rw [List.takeWhile_cons_of_pos ha, List.filter_cons_of_pos ha, ih hrest]
    · have hnone : ∀ b ∈ as, ¬p b = true := fun b hb hpb => ha (hfirst b hb hpb)
      rw [List.takeWhile_cons_of_neg ha, List.filter_cons_of_neg ha, List.filter_eq_nil_iff.mpr hnone]

theorem dropWhile_eq_filter (h : as.Pairwise fun a b => p b = true → p a = true) :
    as.dropWhile p = as.filter fun a => !p a := by
  induction as with
  | nil => rfl
  | cons a as ih =>
    obtain ⟨hfirst, hrest⟩ := List.pairwise_cons.mp h
    by_cases ha : p a = true
    · rw [List.dropWhile_cons_of_pos ha, List.filter_cons_of_neg (by simp [ha]), ih hrest]
    · have hall : ∀ b ∈ as, (!p b) = true := fun b hb => by
        rw [Bool.not_eq_true', Bool.eq_false_iff]
        exact fun hpb => ha (hfirst b hb hpb)
      rw [List.dropWhile_cons_of_neg ha, List.filter_cons_of_pos (by simp [ha]),
        List.filter_eq_self.mpr hall]

/-- The entries from the first one on whose key is not below `k`. -/
def seek (k : κ) (l : List (κ × β)) : List (κ × β) := l.dropWhile fun e => decide (e.1 < k)

theorem seek_eq (h : Sorted l) : seek k l = l.filter fun e => decide (k ≤ e.1) := by
  rw [seek, dropWhile_eq_filter]
  · refine List.filter_congr fun e _ => ?_
    rw [← decide_not, decide_eq_decide, not_lt]
  · refine h.imp fun hlt hb => ?_
    rw [decide_eq_true_eq] at hb ⊢
    exact hlt.trans hb

/-- Where the key is there, the scan starts with it. -/
theorem head?_seek_of_mem (h : Sorted l) (hmem : (k, v) ∈ l) : (seek k l).head? = some (k, v) := by
  unfold seek
  induction l with
  | nil => contradiction
  | cons e l ih =>
    obtain ⟨hfirst, hrest⟩ := List.pairwise_cons.mp h
    rcases List.mem_cons.mp hmem with rfl | hmem
    · rw [List.dropWhile_cons_of_neg (by simp), List.head?_cons]
    · rw [List.dropWhile_cons_of_pos (by simpa using hfirst _ hmem), ih hrest hmem]

theorem head?_seek (h : Sorted l) : (seek k l).head? = l.find? fun e => decide (k ≤ e.1) := by
  rw [seek_eq h, List.head?_filter]

/-- No key is above the one of the last entry. -/
theorem eq_or_lt_getLastD (h : Sorted (e :: l)) {a : κ × β} (ha : a ∈ e :: l) :
    a = l.getLastD e ∨ a.1 < (l.getLastD e).1 := by
  induction l generalizing e a with
  | nil => exact Or.inl (List.mem_singleton.mp ha)
  | cons f l ih =>
    obtain ⟨hfirst, hrest⟩ := List.pairwise_cons.mp h
    rw [List.getLastD_cons]
    rcases List.mem_cons.mp ha with rfl | ha
    · rcases ih hrest List.mem_cons_self with heq | hlt
      · exact Or.inr (heq ▸ hfirst f List.mem_cons_self)
      · exact Or.inr ((hfirst f List.mem_cons_self).trans hlt)
    · exact ih hrest ha

theorem find_append : find k (l ++ l') = (find k l).or (find k l') := by
  induction l with
  | nil => simp
  | cons e l ih =>
    rw [List.cons_append, find_cons, find_cons, ih]
    split <;> simp

/-- What is found among the entries whose values satisfy `p`. -/
theorem find_filter_value (h : Sorted l) (p : β → Bool) :
    find k (l.filter fun e => p e.2) = (find k l).filter p := by
  induction l with
  | nil => rfl
  | cons e l ih =>
    obtain ⟨hfirst, hrest⟩ := List.pairwise_cons.mp h
    rw [find_cons]
    by_cases he : e.1 = k
    · rw [if_pos he, List.filter_cons]
      split
      · rename_i hp
        rw [find_cons, if_pos he, Option.filter_some, if_pos hp]
      · rename_i hp
        rw [ih hrest, find_of_lt fun a ha => he ▸ hfirst a ha, Option.filter_some, if_neg hp]
        rfl
    · rw [if_neg he, List.filter_cons]
      split
      · rw [find_cons, if_neg he, ih hrest]
      · exact ih hrest

theorem sorted_append_singleton (h : Sorted l) (hlt : ∀ a ∈ l, a.1 < e.1) : Sorted (l ++ [e]) :=
  List.pairwise_append.mpr ⟨h, List.pairwise_singleton _ _, fun a ha b hb => by
    rw [List.mem_singleton.mp hb]
    exact hlt a ha⟩

end Scan

end SortedMap
