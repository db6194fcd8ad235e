import Mathlib.Data.List.Sort

/-! Insertion sort by a predicate that says which of two elements comes first. The sort is stable,
so what holds between the elements of a sorted list, each with those after it, is a statement about
the pairs of the unsorted one. -/

namespace StableSort

variable {α β : Type*}

/-- The predicate is a strict weak order. -/
structure StrictWeak (before : α → α → Bool) : Prop where
  asymm : ∀ {a b}, before a b = true → before b a = false
  trans : ∀ {a b c}, before b a = false → before c b = false → before c a = false

theorem StrictWeak.comap {before : β → β → Bool} (h : StrictWeak before) (f : α → β) :
    StrictWeak fun a b => before (f a) (f b) :=
  ⟨h.asymm, h.trans⟩

theorem StrictWeak.total {before : α → α → Bool} (h : StrictWeak before) :
    Std.Total fun a b => before b a = false := by
  refine ⟨fun a b => ?_⟩
  cases hab : before b a with
  | false => exact Or.inl rfl
  | true => exact Or.inr (h.asymm hab)

theorem StrictWeak.isTrans {before : α → α → Bool} (h : StrictWeak before) :
    IsTrans α fun a b => before b a = false :=
  ⟨fun _ _ _ hab hbc => h.trans hab hbc⟩

/-- The predicate is a strict weak order among the elements that satisfy `p`. -/
def StrictWeakOn (p : α → Prop) (before : α → α → Bool) : Prop :=
  StrictWeak fun a b : { a // p a } => before a b

theorem StrictWeak.on {before : α → α → Bool} (h : StrictWeak before) (p : α → Prop) :
    StrictWeakOn p before :=
  h.comap Subtype.val

theorem StrictWeakOn.comap {before : β → β → Bool} {p : β → Prop} (h : StrictWeakOn p before)
    (f : α → β) : StrictWeakOn (fun a => p (f a)) fun a b => before (f a) (f b) :=
  StrictWeak.comap h fun a : { a // p (f a) } => (⟨f a, a.property⟩ : { b // p b })

theorem strictWeak_lt [LinearOrder α] : StrictWeak fun a b : α => decide (a < b) := by
  constructor
  · intro a b hab
    rw [decide_eq_true_iff] at hab
    rw [decide_eq_false_iff_not]
    exact hab.asymm
  · intro a b c hab hbc
    rw [decide_eq_false_iff_not, not_lt] at hab hbc ⊢
    exact hab.trans hbc

/-- The sort puts elements among which the predicate is a strict weak order into its order. -/
theorem StrictWeakOn.pairwise_insertionSort {before : α → α → Bool} {p : α → Prop}
    (h : StrictWeakOn p before) {l : List α} (hl : ∀ a ∈ l, p a) :
    (l.insertionSort fun a b => before b a = false).Pairwise fun a b => before b a = false := by
  have htotal := StrictWeak.total h
  have htrans := StrictWeak.isTrans h
  obtain ⟨l, rfl⟩ : ∃ l' : List { a // p a }, l'.map Subtype.val = l :=
    ⟨l.attachWith p hl, List.attachWith_map_subtype_val hl⟩
  rw [← List.map_insertionSort _ _ Subtype.val l fun _ _ _ _ => Iff.rfl, List.pairwise_map]
  exact List.pairwise_insertionSort _ l

variable {r : α → α → Prop} [DecidableRel r] {R : α → α → Prop} {a : α} {l m : List α}

/-- `R` holds of `a` and `b`, `a` standing before `b`, once a sort by `r` has put them in order. -/
def Placed (r : α → α → Prop) [DecidableRel r] (R : α → α → Prop) (a b : α) : Prop :=
  if r a b then R a b else R b a

instance [DecidableRel R] : DecidableRel (Placed r R) :=
  fun a b => inferInstanceAs (Decidable (if r a b then R a b else R b a))

theorem pairwise_orderedInsert_iff [IsTrans α r] (hl : l.Pairwise r) :
    (l.orderedInsert r a).Pairwise R ↔ (∀ b ∈ l, Placed r R a b) ∧ l.Pairwise R := by
  induction l with
  | nil => simp
  | cons b l ih =>
    obtain ⟨hb, hl⟩ := List.pairwise_cons.mp hl
    by_cases hab : r a b
    · have hall : ∀ c ∈ b :: l, r a c := by
        intro c hc
        rcases List.mem_cons.mp hc with rfl | hc
        · exact hab
        · exact IsTrans.trans a b c hab (hb c hc)
      rw [List.orderedInsert_cons, if_pos hab, List.pairwise_cons]
      refine and_congr_left fun _ => forall₂_congr fun c hc => ?_
      rw [Placed, if_pos (hall c hc)]
    · rw [List.orderedInsert_cons, if_neg hab, List.pairwise_cons, List.pairwise_cons, ih hl]
      simp only [List.mem_orderedInsert, List.mem_cons, forall_eq_or_imp]
      rw [Placed, if_neg hab]
      tauto

/-- The sorted list is pairwise related exactly when the unsorted one is, each pair in the order in
which the sort puts it. -/
theorem pairwise_insertionSort_iff [Std.Total r] [IsTrans α r] :
    (l.insertionSort r).Pairwise R ↔ l.Pairwise (Placed r R) := by
  induction l with
  | nil => simp
  | cons a l ih =>
    rw [List.insertionSort_cons, pairwise_orderedInsert_iff (List.pairwise_insertionSort r l), ih,
      List.pairwise_cons]
    simp only [List.mem_insertionSort]

/-- It makes no difference to a later sort that the front of the list has been sorted before. -/
theorem placed_insertionSort_append [Std.Total r] [IsTrans α r] :
    (l.insertionSort r ++ m).Pairwise (Placed r R) ↔ (l ++ m).Pairwise (Placed r R) := by
  have hfront : (l.insertionSort r).Pairwise (Placed r R) ↔ l.Pairwise (Placed r R) := by
    rw [← pairwise_insertionSort_iff, (List.pairwise_insertionSort r l).insertionSort_eq,
      pairwise_insertionSort_iff]
  simp only [List.pairwise_append, hfront, List.mem_insertionSort]

end StableSort
