import Mathlib.Data.List.DropRight
import Mathlib.Data.List.Infix

/-! Texts as lists of characters: trimming, and regular expressions.

A trimmed text is without the characters at its two ends that satisfy a test. The regular expressions
have repeated character classes and lookahead, but no captures. `ends` tries
every way to match from the start of a text and lists what each leaves of it; where only the existence
of a match counts, as in a search or in a match of the whole text, the order in which an engine tries
them does not matter. -/

namespace Trim

variable {α : Type*} {p q : α → Bool} {l : List α}

def trim (p : α → Bool) (l : List α) : List α := (l.dropWhile p).rdropWhile p

/-- Nothing is left exactly when every element satisfies the test. -/
theorem trim_eq_nil : trim p l = [] ↔ ∀ a ∈ l, p a = true := by
  rw [trim, List.rdropWhile_eq_nil_iff]
  constructor
  · intro h a ha
    rw [← List.takeWhile_append_dropWhile (p := p) (l := l), List.mem_append] at ha
    rcases ha with ha | ha
    · exact List.mem_takeWhile_imp ha
    · exact h a ha
  · exact fun h a ha => h a (List.dropWhile_sublist p |>.subset ha)

end Trim

inductive Regex (α : Type*) where
  | empty
  | chars (p : α → Bool) (least : Nat) (most : Option Nat)
  | seq (first second : Regex α)
  | lookahead (r : Regex α)

namespace Regex

variable {α : Type*}

def sequence (rs : List (Regex α)) : Regex α := rs.foldr .seq .empty

/-- What is left after a number of elements of a class within the bounds. -/
def charEnds (p : α → Bool) : Nat → Option Nat → List α → List (List α)
  | least, _, [] => if least = 0 then [[]] else []
  | least, most, a :: l =>
    (if least = 0 then [a :: l] else []) ++
      if p a ∧ most ≠ some 0 then charEnds p (least - 1) (most.map (· - 1)) l else []

def ends : Regex α → List α → List (List α)
  | .empty, l => [l]
  | .chars p least most, l => charEnds p least most l
  | .seq first second, l => (first.ends l).flatMap second.ends
  | .lookahead r, l => if (r.ends l).isEmpty then [] else [l]

/-- The text has a match somewhere. -/
def found (r : Regex α) (l : List α) : Bool := l.tails.any fun t => !(r.ends t).isEmpty

/-- The whole text is a match. -/
def wholly (r : Regex α) (l : List α) : Bool := (r.ends l).any List.isEmpty

/-- `Leaves r l rest` says that `r` matches the beginning of `l` that ends where `rest` starts. -/
def Leaves : Regex α → List α → List α → Prop
  | .empty, l, rest => rest = l
  | .chars p least most, l, rest => ∃ taken, l = taken ++ rest ∧ (∀ a ∈ taken, p a = true) ∧
      least ≤ taken.length ∧ ∀ n ∈ most, taken.length ≤ n
  | .seq first second, l, rest => ∃ mid, Leaves first l mid ∧ Leaves second mid rest
  | .lookahead r, l, rest => rest = l ∧ ∃ rest', Leaves r l rest'

theorem mem_charEnds {p : α → Bool} {least : Nat} {most : Option Nat} {l rest : List α} :
    rest ∈ charEnds p least most l ↔ ∃ taken, l = taken ++ rest ∧ (∀ a ∈ taken, p a = true) ∧
      least ≤ taken.length ∧ ∀ n ∈ most, taken.length ≤ n := by
  induction l generalizing least most with
  | nil =>
    simp only [charEnds, List.nil_eq, List.append_eq_nil_iff]
    constructor
    · intro h
      split at h
      · rename_i hleast
        exact ⟨[], ⟨rfl, List.mem_singleton.mp h⟩, by simp, by simp [hleast], by simp⟩
      · simp at h
    · rintro ⟨taken, ⟨rfl, rfl⟩, -, hleast, -⟩
      rw [if_pos (Nat.le_zero.mp hleast)]
      exact List.mem_singleton_self _
  | cons a l ih =>
    simp only [charEnds, List.mem_append]
    constructor
    · rintro (h | h)
      · split at h
        · rename_i hleast
          rw [List.mem_singleton] at h
          exact ⟨[], by simp [h], by simp, by simp [hleast], by simp⟩
        · simp at h
      · split at h
        · rename_i htake
          obtain ⟨taken, rfl, hp, hleast, hmost⟩ := ih.mp h
          refine ⟨a :: taken, rfl, ?_, by simp only [List.length_cons]; omega, ?_⟩
          · simpa using ⟨htake.1, hp⟩
          · intro n hn
            have hbound := hmost (n - 1) (by simp [Option.mem_def.mp hn])
            have hpos : n ≠ 0 := by
              rintro rfl
              exact htake.2 hn
            simp only [List.length_cons]
            omega
        · simp at h
    · rintro ⟨taken, htaken, hp, hleast, hmost⟩
      cases taken with
      | nil =>
        rw [if_pos (Nat.le_zero.mp hleast)]
        exact Or.inl (by simpa using htaken.symm)
      | cons b taken =>
        rw [List.cons_append, List.cons.injEq] at htaken
        obtain ⟨rfl, rfl⟩ := htaken
        have hpos : most ≠ some 0 := by
          rintro rfl
          have hbound := hmost 0 rfl
          simp at hbound
        have htake : p a = true ∧ most ≠ some 0 := ⟨hp a (by simp), hpos⟩
        rw [if_pos htake]
        refine Or.inr (ih.mpr ⟨taken, rfl, fun c hc => hp c (by simp [hc]), ?_, ?_⟩)
        · simp only [List.length_cons] at hleast
          omega
        · intro n hn
          obtain ⟨m, hm, rfl⟩ := Option.map_eq_some_iff.mp (Option.mem_def.mp hn)
          have hbound := hmost m hm
          simp only [List.length_cons] at hbound
          omega

theorem mem_ends {r : Regex α} {l rest : List α} : rest ∈ r.ends l ↔ Leaves r l rest := by
  induction r generalizing l rest with
  | empty => simp [ends, Leaves]
  | chars p least most => exact mem_charEnds
  | seq first second ih₁ ih₂ =>
    simp only [ends, Leaves, List.mem_flatMap, ih₁, ih₂]
  | lookahead r ih =>
    simp only [ends, Leaves]
    constructor
    · intro h
      split at h
      · simp at h
      · rename_i hsome
        obtain ⟨rest', hrest'⟩ := List.exists_mem_of_ne_nil _ (by simpa using hsome)
        exact ⟨List.mem_singleton.mp h, rest', ih.mp hrest'⟩
    · rintro ⟨rfl, rest', hrest'⟩
      have hsome := List.ne_nil_of_mem (ih.mpr hrest')
      simp [hsome]

theorem wholly_iff {r : Regex α} {l : List α} : r.wholly l = true ↔ Leaves r l [] := by
  simp only [wholly, List.any_eq_true, List.isEmpty_iff, exists_eq_right, mem_ends]

theorem found_iff {r : Regex α} {l : List α} :
    r.found l = true ↔ ∃ before mid rest, l = before ++ mid ∧ Leaves r mid rest := by
  simp only [found, List.any_eq_true, List.mem_tails, Bool.not_eq_true', List.isEmpty_eq_false_iff]
  constructor
  · rintro ⟨mid, ⟨before, hl⟩, hends⟩
    obtain ⟨rest, hrest⟩ := List.exists_mem_of_ne_nil _ hends
    exact ⟨before, mid, rest, hl.symm, mem_ends.mp hrest⟩
  · rintro ⟨before, mid, rest, hl, hleaves⟩
    exact ⟨mid, ⟨before, hl.symm⟩, List.ne_nil_of_mem (mem_ends.mpr hleaves)⟩

section Leaves

variable {p q : α → Bool} {least : Nat} {r : Regex α} {rs : List (Regex α)} {l rest : List α}

theorem leaves_nil : Leaves (sequence []) l rest ↔ rest = l := Iff.rfl

theorem leaves_cons : Leaves (sequence (r :: rs)) l rest ↔
    ∃ mid, Leaves r l mid ∧ Leaves (sequence rs) mid rest := Iff.rfl

theorem leaves_one : Leaves (.chars p 1 (some 1)) l rest ↔ ∃ a, p a = true ∧ l = a :: rest := by
  constructor
  · rintro ⟨taken, hl, hp, hleast, hmost⟩
    obtain ⟨a, rfl⟩ := List.length_eq_one_iff.mp (Nat.le_antisymm (hmost 1 rfl) hleast)
    exact ⟨a, hp a (by simp), hl⟩
  · rintro ⟨a, ha, rfl⟩
    exact ⟨[a], rfl, by simpa using ha, by simp, by simp⟩

theorem leaves_many : Leaves (.chars p least none) l rest ↔
    ∃ taken, l = taken ++ rest ∧ (∀ a ∈ taken, p a = true) ∧ least ≤ taken.length := by
  simp [Leaves]

/-- Where every element is of the class that the lookahead skips, it asks for an element anywhere. -/
theorem leaves_ahead (hq : ∀ a ∈ l, q a = true) :
    Leaves (.lookahead (.seq (.chars q 0 none) (.chars p 1 (some 1)))) l rest ↔
      rest = l ∧ ∃ a ∈ l, p a = true := by
  refine and_congr_right fun _ => ⟨?_, ?_⟩
  · rintro ⟨after, mid, hskipped, hfound⟩
    obtain ⟨skipped, rfl, -, -⟩ := leaves_many.mp hskipped
    obtain ⟨a, ha, rfl⟩ := leaves_one.mp hfound
    exact ⟨a, by simp, ha⟩
  · rintro ⟨a, ha, hpa⟩
    obtain ⟨skipped, after, rfl⟩ := List.append_of_mem ha
    refine ⟨after, a :: after, leaves_many.mpr ⟨skipped, rfl, fun b hb => hq b (by simp [hb]), ?_⟩,
      leaves_one.mpr ⟨a, hpa, rfl⟩⟩
    exact Nat.zero_le _

end Leaves

end Regex
