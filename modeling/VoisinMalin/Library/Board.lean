import VoisinMalin.Library.Run
import Mathlib.Data.Set.Insert
import Mathlib.Logic.Function.Basic

/-! A board on which items are posted once, under a name that is never used again, and removed, and
that keeps who likes which of the items that are posted. What is posted under a name never changes,
and what has been removed does not come back. -/

/-- Names `ι`, people `κ` and contents `γ`. -/
structure Board (ι κ γ : Type*) where
  posts : ι → Option γ
  likes : Set (κ × ι)
  used : Set ι
  posted : ∀ i, (posts i).isSome → i ∈ used
  liked : ∀ k i, (k, i) ∈ likes → (posts i).isSome

namespace Board

inductive Action (ι κ γ : Type*) where
  | post (i : ι) (c : γ)
  | like (k : κ) (i : ι)
  | unlike (k : κ) (i : ι)
  | remove (i : ι)

variable {ι κ γ : Type*} [DecidableEq ι]

open Classical in
noncomputable def step (b : Board ι κ γ) : Action ι κ γ → Option (Board ι κ γ)
  | .post i c =>
    if i ∈ b.used then none
    else some
      { posts := Function.update b.posts i (some c)
        likes := b.likes
        used := insert i b.used
        posted := by
          intro j hj
          by_cases h : j = i
          · exact Or.inl h
          · rw [Function.update_of_ne h] at hj
            exact Or.inr (b.posted j hj)
        liked := by
          intro k j hj
          by_cases h : j = i
          · rw [h, Function.update_self]
            rfl
          · rw [Function.update_of_ne h]
            exact b.liked k j hj }
  | .like k i =>
    if h : (b.posts i).isSome then some
      { b with
        likes := insert (k, i) b.likes
        liked := by
          rintro l j (hj | hj)
          · cases hj
            exact h
          · exact b.liked l j hj }
    else none
  | .unlike k i => some
      { b with
        likes := b.likes \ {(k, i)}
        liked := fun l j hj => b.liked l j hj.1 }
  | .remove i => some
      { b with
        posts := Function.update b.posts i none
        likes := {p ∈ b.likes | p.2 ≠ i}
        posted := by
          intro j hj
          by_cases h : j = i
          · rw [h, Function.update_self] at hj
            contradiction
          · rw [Function.update_of_ne h] at hj
            exact b.posted j hj
        liked := by
          rintro k j ⟨hj, hne⟩
          rw [Function.update_of_ne hne]
          exact b.liked k j hj }

variable {b c : Board ι κ γ} {a : Action ι κ γ} {as : List (Action ι κ γ)} {i : ι}

/-- Under a name in use, a step leaves what is posted or removes it. -/
theorem step_used (h : step b a = some c) (hi : i ∈ b.used) :
    i ∈ c.used ∧ (c.posts i = b.posts i ∨ c.posts i = none) := by
  cases a with
  | post j x =>
    simp only [step] at h
    split at h
    · contradiction
    · rename_i hnew
      cases h
      have hne : i ≠ j := fun hij => hnew (hij ▸ hi)
      exact ⟨Or.inr hi, Or.inl (Function.update_of_ne hne _ _)⟩
  | like k j =>
    simp only [step] at h
    split at h
    · cases h
      exact ⟨hi, Or.inl rfl⟩
    · contradiction
  | unlike k j =>
    cases h
    exact ⟨hi, Or.inl rfl⟩
  | remove j =>
    cases h
    refine ⟨hi, ?_⟩
    by_cases hij : i = j
    · exact Or.inr (hij ▸ Function.update_self _ _ _)
    · exact Or.inl (Function.update_of_ne hij _ _)

/-- Under a name in use, there is at any later time what was posted, or nothing. -/
theorem run_used (h : EventMachine.run step b as = some c) (hi : i ∈ b.used) :
    i ∈ c.used ∧ (c.posts i = b.posts i ∨ c.posts i = none) := by
  refine EventMachine.run_preserves (I := fun d : Board ι κ γ =>
    i ∈ d.used ∧ (d.posts i = b.posts i ∨ d.posts i = none)) (fun d a e hd hstep => ?_)
    ⟨hi, Or.inl rfl⟩ h
  obtain ⟨hused, hposts⟩ := step_used hstep hd.1
  refine ⟨hused, ?_⟩
  rcases hposts with hsame | hnone
  · rw [hsame]
    exact hd.2
  · exact Or.inr hnone

end Board
