import Mathlib.Data.List.Basic

/-! A loop over records with a decoder that yields a value, skips the record, or fails. The loop
appends each value to a list and then rearranges the list; a failure ends it. -/

namespace Collect

variable {ρ α β ε : Type*}

def collect (decode : ρ → Except ε (Option α)) (arrange : List α → List α) :
    List ρ → List α → Except ε (List α)
  | [], acc => .ok acc
  | r :: rs, acc =>
    match decode r with
    | .error e => .error e
    | .ok none => collect decode arrange rs acc
    | .ok (some a) => collect decode arrange rs (arrange (acc ++ [a]))

/-- The value of a record, if the decoder yields one. -/
def kept (decode : ρ → Except ε (Option α)) (r : ρ) : Option α :=
  match decode r with
  | .ok o => o
  | .error _ => none

theorem kept_ok {decode : ρ → Except ε (Option α)} {r : ρ} {o : Option α} (h : decode r = .ok o) :
    kept decode r = o := by
  simp [kept, h]

variable {decode : ρ → Except ε (Option α)} {arrange : List α → List α} {rs : List ρ}
  {acc result : List α}

/-- The loop ends exactly when the decoder fails for no record. -/
theorem collect_ends : (∃ result, collect decode arrange rs acc = .ok result) ↔
    ∀ r ∈ rs, ∃ o, decode r = .ok o := by
  induction rs generalizing acc with
  | nil => simp [collect]
  | cons r rs ih =>
    simp only [collect, List.forall_mem_cons]
    cases decode r with
    | error e => simp
    | ok o => cases o <;> simp [ih]

theorem collect_congr {decode' : ρ → Except ε (Option α)} (h : ∀ r ∈ rs, decode r = decode' r) :
    collect decode arrange rs acc = collect decode' arrange rs acc := by
  induction rs generalizing acc with
  | nil => rfl
  | cons r rs ih =>
    have hrest : ∀ acc, collect decode arrange rs acc = collect decode' arrange rs acc :=
      fun acc => ih fun x hx => h x (List.mem_cons_of_mem r hx)
    simp only [collect, h r List.mem_cons_self, hrest]

/-- The loop takes the values of the records one by one. -/
theorem collect_foldl (h : collect decode arrange rs acc = .ok result) :
    result = (rs.filterMap (kept decode)).foldl (fun l a => arrange (l ++ [a])) acc := by
  induction rs generalizing acc with
  | nil =>
    cases h
    rfl
  | cons r rs ih =>
    simp only [collect] at h
    cases hr : decode r with
    | error e => simp [hr] at h
    | ok o =>
      rw [hr] at h
      cases o with
      | none =>
        rw [List.filterMap_cons_none (kept_ok hr)]
        exact ih h
      | some a =>
        rw [List.filterMap_cons_some (kept_ok hr)]
        exact ih h

/-- The list that the loop leaves: the one it started from and the values of the records. -/
theorem collect_perm (harrange : ∀ l, (arrange l).Perm l)
    (h : collect decode arrange rs acc = .ok result) :
    result.Perm (acc ++ rs.filterMap (kept decode)) := by
  rw [collect_foldl h]
  generalize rs.filterMap (kept decode) = new
  clear h
  induction new generalizing acc with
  | nil => simp
  | cons a new ih =>
    have hacc : (arrange (acc ++ [a]) ++ new).Perm (acc ++ [a] ++ new) :=
      (harrange _).append_right _
    rw [List.append_assoc] at hacc
    exact ih.trans hacc

/-- Where every value of `g` has a value of `f`, the two keep equally many records only if they
keep the same. -/
theorem filterMap_length_lt {f : ρ → Option α} {g : ρ → Option β} {r : ρ}
    (hmono : ∀ x ∈ rs, (g x).isSome → (f x).isSome) (hr : r ∈ rs) (hf : (f r).isSome)
    (hg : g r = none) : (rs.filterMap g).length < (rs.filterMap f).length := by
  have hle : ∀ l : List ρ, (∀ x ∈ l, (g x).isSome → (f x).isSome) →
      (l.filterMap g).length ≤ (l.filterMap f).length := by
    intro l hl
    rw [List.length_filterMap_eq_countP, List.length_filterMap_eq_countP]
    exact List.countP_mono_left hl
  obtain ⟨before, after, rfl⟩ := List.append_of_mem hr
  have hbefore := hle before fun x hx => hmono x (by simp [hx])
  have hafter := hle after fun x hx => hmono x (by simp [hx])
  obtain ⟨a, ha⟩ := Option.isSome_iff_exists.mp hf
  rw [List.filterMap_append, List.filterMap_append, List.filterMap_cons_none hg,
    List.filterMap_cons_some ha]
  simp only [List.length_append, List.length_cons]
  omega

end Collect
