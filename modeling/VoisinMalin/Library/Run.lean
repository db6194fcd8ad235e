import Mathlib.Data.List.Basic

/-! Machines that take one event at a time and may refuse it: the state that a list of events
reaches, what holds in every state on the way, what every event offered or taken on the way meets, the
last value that the events bring, the work that they take up, and forward simulation between two
machines. -/

namespace EventMachine

variable {σ ε : Type*} (step : σ → ε → Option σ)

/-- The state that `es` reaches from a state, or `none` when one of the events is refused. -/
def run : σ → List ε → Option σ
  | s, [] => some s
  | s, e :: es => (step s e).bind fun t => run t es

/-- `P` holds in the first state and in every state that the events reach. -/
def Always (P : σ → Prop) : σ → List ε → Prop
  | s, [] => P s
  | s, e :: es => P s ∧ ∀ t, step s e = some t → Always P t es

/-- Every event that the machine takes meets `C` in the state in which it is taken. -/
def Along (C : σ → ε → Prop) : σ → List ε → Prop
  | _, [] => True
  | s, e :: es => ∀ t, step s e = some t → C s e ∧ Along C t es

/-- Each event meets `C` in the state in which it comes. -/
def Offered (C : σ → ε → Prop) : σ → List ε → Prop
  | _, [] => True
  | s, e :: es => C s e ∧ ∀ t, step s e = some t → Offered C t es

variable {step} {s t : σ} {e : ε} {es fs : List ε}

/-- Whether a list of events may come is computed along the run. -/
instance decidableOffered {C : σ → ε → Prop} [∀ s e, Decidable (C s e)] :
    (s : σ) → (es : List ε) → Decidable (Offered step C s es)
  | _, [] => isTrue trivial
  | s, e :: es =>
    have := fun t => decidableOffered (C := C) t es
    inferInstanceAs (Decidable (C s e ∧ ∀ t ∈ step s e, Offered step C t es))

@[simp] theorem run_nil : run step s [] = some s := rfl

theorem run_cons : run step s (e :: es) = some t ↔
    ∃ u, step s e = some u ∧ run step u es = some t := by
  simp [run, Option.bind_eq_some_iff]

theorem run_append : run step s (es ++ fs) = some t ↔
    ∃ u, run step s es = some u ∧ run step u fs = some t := by
  induction es generalizing s with
  | nil => simp
  | cons e es ih =>
    simp only [List.cons_append, run_cons, ih]
    constructor
    · rintro ⟨u, hu, v, hv, ht⟩
      exact ⟨v, ⟨u, hu, hv⟩, ht⟩
    · rintro ⟨v, ⟨u, hu, hv⟩, ht⟩
      exact ⟨u, hu, v, hv, ht⟩

/-- A predicate that every taken event among those that satisfy `A` preserves holds after a run of
such events. -/
theorem run_preserves_of {I : σ → Prop} {A : ε → Prop}
    (hstep : ∀ s e t, I s → A e → step s e = some t → I t) (hI : I s) (hA : ∀ e ∈ es, A e)
    (hrun : run step s es = some t) : I t := by
  induction es generalizing s with
  | nil =>
    cases hrun
    exact hI
  | cons e es ih =>
    obtain ⟨u, hu, hrest⟩ := run_cons.mp hrun
    exact ih (hstep s e u hI (hA e (by simp)) hu) (fun f hf => hA f (by simp [hf])) hrest

/-- An invariant holds after every run. -/
theorem run_preserves {I : σ → Prop} (hstep : ∀ s e t, I s → step s e = some t → I t) (hI : I s)
    (hrun : run step s es = some t) : I t :=
  run_preserves_of (A := fun _ => True) (fun s e t h _ => hstep s e t h) hI (fun _ _ => trivial)
    hrun

/-- A predicate that the events that meet `C` preserve holds after a run along `C`. -/
theorem Along.run_preserves {I : σ → Prop} {C : σ → ε → Prop}
    (hstep : ∀ s e t, I s → C s e → step s e = some t → I t) (hI : I s) (h : Along step C s es)
    (hrun : run step s es = some t) : I t := by
  induction es generalizing s with
  | nil =>
    cases hrun
    exact hI
  | cons e es ih =>
    obtain ⟨u, hu, hrest⟩ := run_cons.mp hrun
    obtain ⟨hfirst, hlater⟩ := h u hu
    exact ih (hstep s e u hI hfirst hu) hlater hrest

theorem Along.cons {C : σ → ε → Prop} (h : step s e = some t) (first : C s e)
    (rest : Along step C t es) : Along step C s (e :: es) := by
  intro u hu
  rw [h] at hu
  cases hu
  exact ⟨first, rest⟩

theorem Always.nil {P : σ → Prop} (h : P s) : Always step P s [] := h

theorem Always.cons {P : σ → Prop} (h : step s e = some t) (first : P s)
    (rest : Always step P t es) : Always step P s (e :: es) := by
  refine ⟨first, fun u hu => ?_⟩
  rw [h] at hu
  cases hu
  exact rest

theorem Always.first {P : σ → Prop} (h : Always step P s es) : P s := by
  cases es with
  | nil => exact h
  | cons e es => exact h.1

/-- What an invariant implies holds in every state of a run. -/
theorem always_of_invariant {I P : σ → Prop} (hstep : ∀ s e t, I s → step s e = some t → I t)
    (hP : ∀ s, I s → P s) (hI : I s) : Always step P s es := by
  induction es generalizing s with
  | nil => exact hP s hI
  | cons e es ih => exact ⟨hP s hI, fun t ht => ih (hstep s e t hI ht)⟩

/-- What an invariant implies that the events meeting `C` keep holds in every state of a run along
`C`. -/
theorem Along.always {I P : σ → Prop} {C : σ → ε → Prop}
    (hstep : ∀ s e t, I s → C s e → step s e = some t → I t) (hP : ∀ s, I s → P s) (hI : I s)
    (h : Along step C s es) : Always step P s es := by
  induction es generalizing s with
  | nil => exact hP s hI
  | cons e es ih => exact ⟨hP s hI, fun t ht => ih (hstep s e t hI (h t ht).1 ht) (h t ht).2⟩

theorem always_iff_run {P : σ → Prop} : Always step P s es ↔
    ∀ fs gs t, es = fs ++ gs → run step s fs = some t → P t := by
  induction es generalizing s with
  | nil =>
    constructor
    · rintro h fs gs t hes hrun
      obtain ⟨rfl, rfl⟩ := List.append_eq_nil_iff.mp hes.symm
      cases hrun
      exact h
    · exact fun h => h [] [] s rfl rfl
  | cons e es ih =>
    constructor
    · rintro ⟨hfirst, hrest⟩ fs gs t hes hrun
      cases fs with
      | nil =>
        cases hrun
        exact hfirst
      | cons f fs =>
        obtain ⟨rfl, hrest'⟩ := List.cons.inj hes
        obtain ⟨u, hu, ht⟩ := run_cons.mp hrun
        exact ih.mp (hrest u hu) fs gs t hrest' ht
    · intro h
      refine ⟨h [] (e :: es) s rfl rfl, fun u hu => ih.mpr fun fs gs t hes hrun => ?_⟩
      exact h (e :: fs) gs t (by rw [hes, List.cons_append]) (run_cons.mpr ⟨u, hu, hrun⟩)

/-- Where each step from a good state leads to a good state exactly when it meets `C`, all states
of a run are good exactly when all its steps meet `C`. -/
theorem always_iff_along {I P : σ → Prop} {C : σ → ε → Prop}
    (hI : ∀ s e t, I s → step s e = some t → I t)
    (hstep : ∀ s e t, I s → P s → step s e = some t → (P t ↔ C s e)) (hs : I s) (hP : P s) :
    Always step P s es ↔ Along step C s es := by
  induction es generalizing s with
  | nil => exact ⟨fun _ => trivial, fun _ => hP⟩
  | cons e es ih =>
    constructor
    · rintro ⟨-, hrest⟩ t ht
      have good := (hrest t ht).first
      exact ⟨(hstep s e t hs hP ht).mp good, (ih (hI s e t hs ht) good).mp (hrest t ht)⟩
    · intro h
      refine ⟨hP, fun t ht => ?_⟩
      have good := (hstep s e t hs hP ht).mpr (h t ht).1
      exact (ih (hI s e t hs ht) good).mpr (h t ht).2

/-- Where the steps that meet `C` keep an invariant, and under the invariant also meet `D`, a run
along `C` is one along `D`. -/
theorem Along.imp_of {I : σ → Prop} {C D : σ → ε → Prop}
    (hI : ∀ s e t, I s → C s e → step s e = some t → I t)
    (hD : ∀ s e t, I s → C s e → step s e = some t → D s e) (hs : I s)
    (h : Along step C s es) : Along step D s es := by
  induction es generalizing s with
  | nil => trivial
  | cons e es ih =>
    intro t ht
    obtain ⟨hfirst, hrest⟩ := h t ht
    exact ⟨hD s e t hs hfirst ht, ih (hI s e t hs hfirst ht) hrest⟩

theorem Offered.along {C : σ → ε → Prop} (h : Offered step C s es) : Along step C s es := by
  induction es generalizing s with
  | nil => trivial
  | cons e es ih => exact fun t ht => ⟨h.1, ih (h.2 t ht)⟩

/-- Where an invariant lets each event that meets `C` be taken and is kept by it, a run of such events
is not refused. -/
theorem Offered.run {I : σ → Prop} {C : σ → ε → Prop}
    (hstep : ∀ s e, I s → C s e → ∃ t, step s e = some t ∧ I t) (hI : I s)
    (h : Offered step C s es) : ∃ t, EventMachine.run step s es = some t ∧ I t := by
  induction es generalizing s with
  | nil => exact ⟨s, rfl, hI⟩
  | cons e es ih =>
    obtain ⟨u, hu, hIu⟩ := hstep s e hI h.1
    obtain ⟨t, ht, hIt⟩ := ih hIu (h.2 u hu)
    exact ⟨t, run_cons.mpr ⟨u, hu, ht⟩, hIt⟩

theorem Offered.imp {C D : σ → ε → Prop} (hD : ∀ s e, C s e → D s e) (h : Offered step C s es) :
    Offered step D s es := by
  induction es generalizing s with
  | nil => trivial
  | cons e es ih => exact ⟨hD s e h.1, fun t ht => ih (h.2 t ht)⟩

theorem Offered.append {C : σ → ε → Prop} (h : Offered step C s es)
    (hrun : EventMachine.run step s es = some t) (hlater : Offered step C t fs) :
    Offered step C s (es ++ fs) := by
  induction es generalizing s with
  | nil =>
    cases hrun
    exact hlater
  | cons e es ih =>
    obtain ⟨u, hu, hrest⟩ := run_cons.mp hrun
    refine ⟨h.1, fun v hv => ?_⟩
    rw [hu] at hv
    exact Option.some.inj hv ▸ ih (h.2 u hu) hrest

theorem Offered.take {C : σ → ε → Prop} (h : Offered step C s (es ++ fs)) : Offered step C s es := by
  induction es generalizing s with
  | nil => trivial
  | cons e es ih => exact ⟨h.1, fun t ht => ih (h.2 t ht)⟩

theorem Offered.drop {C : σ → ε → Prop} (h : Offered step C s (es ++ fs))
    (hrun : EventMachine.run step s es = some t) : Offered step C t fs := by
  induction es generalizing s with
  | nil =>
    cases hrun
    exact h
  | cons e es ih =>
    obtain ⟨u, hu, hrest⟩ := run_cons.mp hrun
    exact ih (h.2 u hu) hrest

/-- In a run that is not refused every event was offered. -/
theorem Offered.forall_mem {A : ε → Prop} (h : Offered step (fun _ => A) s es)
    (hrun : EventMachine.run step s es = some t) : ∀ e ∈ es, A e := by
  induction es generalizing s with
  | nil => simp
  | cons e es ih =>
    obtain ⟨u, hu, hrest⟩ := run_cons.mp hrun
    intro f hf
    rcases List.mem_cons.mp hf with rfl | hf
    · exact h.1
    · exact ih (h.2 u hu) hrest f hf

section Last

variable {β : Type*} {b : β} {brings : ε → Option β}

/-- What each step keeps of the events so far and the state holds after a run. -/
theorem run_history {P : List ε → σ → Prop}
    (hstep : ∀ fs s e t, P fs s → step s e = some t → P (fs ++ [e]) t) (hP : P fs s)
    (hrun : run step s es = some t) : P (fs ++ es) t := by
  induction es generalizing s fs with
  | nil =>
    cases hrun
    rwa [List.append_nil]
  | cons e es ih =>
    obtain ⟨u, hu, hrest⟩ := run_cons.mp hrun
    rw [← List.singleton_append, ← List.append_assoc]
    exact ih (hstep fs s e u hP hu) hrest

/-- What each step keeps of a value that follows the events holds after a run. -/
theorem run_foldl {P : β → σ → Prop} {after : β → ε → β}
    (hstep : ∀ b s e t, P b s → step s e = some t → P (after b e) t) (hP : P b s)
    (hrun : run step s es = some t) : P (es.foldl after b) t := by
  induction es generalizing s b with
  | nil =>
    cases hrun
    exact hP
  | cons e es ih =>
    obtain ⟨u, hu, hrest⟩ := run_cons.mp hrun
    exact ih (hstep b s e u hP hu) hrest

/-- The last value that the events bring. -/
def lastOf (brings : ε → Option β) (es : List ε) : Option β := (es.filterMap brings).getLast?

theorem lastOf_cons : lastOf brings (e :: es) = (lastOf brings es).or (brings e) := by
  unfold lastOf
  cases he : brings e with
  | none => rw [List.filterMap_cons_none he, Option.or_none]
  | some b =>
    rw [List.filterMap_cons_some he, List.getLast?_cons]
    cases (es.filterMap brings).getLast? <;> rfl

theorem foldl_or {b : Option β} :
    es.foldl (fun b e => (brings e).or b) b = (lastOf brings es).or b := by
  induction es generalizing b with
  | nil => rfl
  | cons e es ih => rw [List.foldl_cons, ih, lastOf_cons, Option.or_assoc]

/-- What each step keeps of the last value brought holds after a run. -/
theorem run_lastOf {P : Option β → σ → Prop}
    (hstep : ∀ b s e t, P b s → step s e = some t → P ((brings e).or b) t) {b : Option β}
    (hP : P b s) (hrun : run step s es = some t) : P ((lastOf brings es).or b) t := by
  rw [← foldl_or]
  exact run_foldl hstep hP hrun

theorem lastOf_eq_some (h : lastOf brings es = some b) : ∃ e ∈ es, brings e = some b :=
  List.mem_filterMap.mp (List.mem_of_getLast? h)

theorem lastOf_isSome (he : e ∈ es) (h : brings e = some b) : ∃ c, lastOf brings es = some c :=
  ⟨_, List.getLast?_eq_some_getLast (List.ne_nil_of_mem (List.mem_filterMap.mpr ⟨e, he, h⟩))⟩

end Last

/-! ### Work under way: some events take it up, the others add a bounded amount -/

section Work

variable {I : σ → Prop} {settles : ε → Bool} {work : σ → ℕ} {bound : ℕ}

/-- Where some event lowers the measure as long as there is work, a run of such events reaches a
state without any, with no more events than the measure says. -/
theorem exists_run_done {Done : σ → Prop} {C : σ → ε → Prop}
    (hnext : ∀ s, I s → ¬Done s → ∃ e t, C s e ∧ step s e = some t ∧ I t ∧ work t < work s)
    (hs : I s) : ∃ es t, Offered step C s es ∧ run step s es = some t ∧ I t ∧ Done t ∧
      es.length ≤ work s := by
  induction hwork : work s using Nat.strongRecOn generalizing s with
  | ind n ih =>
    by_cases hdone : Done s
    · exact ⟨[], s, trivial, rfl, hs, hdone, Nat.zero_le n⟩
    · obtain ⟨e, u, he, hu, hIu, hless⟩ := hnext s hs hdone
      obtain ⟨es, t, hes, hrun, hIt, ht, hlength⟩ := ih (work u) (hwork ▸ hless) hIu rfl
      refine ⟨e :: es, t, ⟨he, fun v hv => ?_⟩, run_cons.mpr ⟨u, hu, hrun⟩, hIt, ht, ?_⟩
      · rw [hu] at hv
        exact Option.some.inj hv ▸ hes
      · rw [List.length_cons]
        omega

end Work

/-! ### Forward simulation -/

section Simulation

variable {τ α : Type*} {astep : τ → α → Option τ} {C : σ → ε → Prop} {acts : σ → ε → List α}
  {R : σ → τ → Prop} {s' : σ} {a : τ}

/-- The actions that the steps of a run stand for. -/
def trace (step : σ → ε → Option σ) (acts : σ → ε → List α) : σ → List ε → List α
  | _, [] => []
  | s, e :: es => acts s e ++ (step s e).elim [] fun t => trace step acts t es

/-- Each step that meets `C` from related states leads to related states, `acts` being what the
second machine does meanwhile. -/
def Simulates (step : σ → ε → Option σ) (astep : τ → α → Option τ) (C : σ → ε → Prop)
    (acts : σ → ε → List α) (R : σ → τ → Prop) : Prop :=
  ∀ s e s' a, R s a → C s e → step s e = some s' →
    ∃ a', run astep a (acts s e) = some a' ∧ R s' a'

/-- A run along the condition is matched by the actions of its steps, in their order. -/
theorem Simulates.run (h : Simulates step astep C acts R) (hR : R s a) (hC : Along step C s es)
    (hrun : EventMachine.run step s es = some s') :
    ∃ a', EventMachine.run astep a (trace step acts s es) = some a' ∧ R s' a' := by
  induction es generalizing s a with
  | nil =>
    cases hrun
    exact ⟨a, rfl, hR⟩
  | cons e es ih =>
    obtain ⟨u, hu, hrest⟩ := run_cons.mp hrun
    obtain ⟨hfirst, hlater⟩ := hC u hu
    obtain ⟨v, hv, huv⟩ := h s e u a hR hfirst hu
    obtain ⟨a', ha', hR'⟩ := ih huv hlater hrest
    refine ⟨a', ?_, hR'⟩
    rw [trace, hu, Option.elim_some]
    exact run_append.mpr ⟨v, hv, ha'⟩

/-- Where the actions do not depend on the state, they are those of the events. -/
theorem Simulates.run_events {acts : ε → List α}
    (h : Simulates step astep C (fun _ => acts) R) (hR : R s a) (hC : Along step C s es)
    (hrun : EventMachine.run step s es = some s') :
    ∃ a', EventMachine.run astep a (es.flatMap acts) = some a' ∧ R s' a' := by
  have htrace : trace step (fun _ => acts) s es = es.flatMap acts := by
    clear hC hR
    induction es generalizing s with
    | nil => rfl
    | cons e es ih =>
      obtain ⟨u, hu, hrest⟩ := run_cons.mp hrun
      rw [trace, hu, Option.elim_some, ih hrest, List.flatMap_cons]
  rw [← htrace]
  exact h.run hR hC hrun

end Simulation

end EventMachine
