import VoisinMalin.Library.Run
import Mathlib.Logic.Function.Basic
import Mathlib.Data.List.Nodup

/-! Outboxes and an inbox.

There is an outbox for each sender: an item is posted, with a ticket when somebody waits for it, and an
outcome settles the oldest item that is pending. A ticket without an item is answered at once.
Whatever happens in between, the items of a sender are settled in the order in which they were posted,
each at most once, and none is lost, and no ticket is told of twice.

The messages under way to a receiver are known by the state that it will have once it has received them
in their order. The receiver may take a message that changes no state out of its turn; of the others it
takes the first. -/

/-- Senders `κ`, items `α`, tickets `γ` and outcomes `β`. -/
structure Outbox (κ α γ β : Type*) where
  pending : κ → List (α × Option γ)
  settled : List (Option (κ × α) × Option γ × β)

namespace Outbox

inductive Action (κ α γ β : Type*) where
  | post (k : κ) (a : α) (ticket : Option γ)
  | settle (k : κ) (outcome : β)
  | answer (ticket : γ) (outcome : β)
  | forget -- all tickets

variable {κ α γ β : Type*} [DecidableEq κ]

def step (o : Outbox κ α γ β) : Action κ α γ β → Option (Outbox κ α γ β)
  | .post k a ticket =>
    some { o with pending := Function.update o.pending k (o.pending k ++ [(a, ticket)]) }
  | .settle k outcome =>
    match o.pending k with
    | [] => none
    | item :: rest => some
        { pending := Function.update o.pending k rest
          settled := o.settled ++ [(some (k, item.1), item.2, outcome)] }
  | .answer ticket outcome => some { o with settled := o.settled ++ [(none, some ticket, outcome)] }
  | .forget => some { o with pending := fun k => (o.pending k).map fun item => (item.1, none) }

/-- The settled items of a sender. -/
def settledOf (o : Outbox κ α γ β) (k : κ) : List α :=
  o.settled.filterMap fun e => e.1.bind fun item => if item.1 = k then some item.2 else none

/-- The items of a sender that are not settled. -/
def pendingOf (o : Outbox κ α γ β) (k : κ) : List α := (o.pending k).map Prod.fst

/-- What those who wait are told: for each ticket, the outcome. -/
def told (o : Outbox κ α γ β) : List (γ × β) :=
  o.settled.filterMap fun e => e.2.1.map fun ticket => (ticket, e.2.2)

/-- The items that the actions post for a sender. -/
def posted (k : κ) (as : List (Action κ α γ β)) : List α :=
  as.filterMap fun
    | .post j a _ => if j = k then some a else none
    | _ => none

variable {o o' : Outbox κ α γ β} {a : Action κ α γ β} {as : List (Action κ α γ β)}

theorem step_account (h : step o a = some o') (k : κ) :
    o'.settledOf k ++ o'.pendingOf k = o.settledOf k ++ o.pendingOf k ++ posted k [a] := by
  cases a with
  | post j a ticket =>
    cases h
    by_cases hj : j = k
    · subst hj
      simp [settledOf, pendingOf, posted]
    · simp [settledOf, pendingOf, posted, hj, Function.update_of_ne (Ne.symm hj)]
  | settle j outcome =>
    rw [step] at h
    split at h
    · contradiction
    · rename_i item rest hpending
      cases h
      by_cases hj : j = k
      · subst hj
        simp [settledOf, pendingOf, posted, hpending]
      · simp [settledOf, pendingOf, posted, hj, Function.update_of_ne (Ne.symm hj)]
  | answer ticket outcome =>
    cases h
    simp [settledOf, pendingOf, posted]
  | forget =>
    cases h
    simp [settledOf, pendingOf, posted]

/-- After a run, what was pending or has been posted is what has been settled, followed by what is
pending. -/
theorem run_account (h : EventMachine.run step o as = some o') (k : κ) :
    o'.settledOf k ++ o'.pendingOf k = o.settledOf k ++ o.pendingOf k ++ posted k as := by
  induction as generalizing o with
  | nil =>
    cases h
    simp [posted]
  | cons a as ih =>
    obtain ⟨p, hp, hrest⟩ := EventMachine.run_cons.mp h
    rw [ih hrest, step_account hp]
    simp only [posted, List.append_assoc, ← List.filterMap_append, List.singleton_append]

/-- Whose items an action changes. -/
def Action.sender : Action κ α γ β → Option κ
  | .post k _ _ => some k
  | .settle k _ => some k
  | _ => none

/-- The actions for other senders leave the items of a sender pending. -/
theorem run_others {k : κ} (h : EventMachine.run step o as = some o')
    (hothers : ∀ a ∈ as, a.sender ≠ some k) : o'.pendingOf k = o.pendingOf k := by
  induction as generalizing o with
  | nil =>
    cases h
    rfl
  | cons a as ih =>
    obtain ⟨p, hp, hrest⟩ := EventMachine.run_cons.mp h
    rw [ih hrest fun b hb => hothers b (List.mem_cons_of_mem a hb)]
    have hsender := hothers a List.mem_cons_self
    cases a with
    | post j x ticket =>
      cases hp
      have hne : k ≠ j := fun heq => hsender (congrArg some heq.symm)
      simp only [pendingOf, Function.update_of_ne hne]
    | settle j outcome =>
      have hne : k ≠ j := fun heq => hsender (congrArg some heq.symm)
      rw [step] at hp
      split at hp
      · contradiction
      · cases hp
        simp only [pendingOf, Function.update_of_ne hne]
    | answer ticket outcome =>
      cases hp
      rfl
    | forget =>
      cases hp
      simp [pendingOf]

section Tickets

/-- The tickets that the actions give out or answer. -/
def tickets (as : List (Action κ α γ β)) : List γ :=
  as.filterMap fun
    | .post _ _ ticket => ticket
    | .answer ticket _ => some ticket
    | _ => none

/-- The tickets of a sender's items that are not settled. -/
def waiting (o : Outbox κ α γ β) (k : κ) : List γ := (o.pending k).filterMap Prod.snd

/-- The tickets that were told of. -/
def answered (o : Outbox κ α γ β) : List γ := o.told.map Prod.fst

/-- Each ticket is at one place only. -/
structure Once (o : Outbox κ α γ β) : Prop where
  answered : o.answered.Nodup
  waiting : ∀ k, (o.waiting k ++ o.answered).Nodup
  apart : ∀ j k, ∀ t ∈ o.waiting j, t ∈ o.waiting k → j = k

/-- Nobody waits with the ticket, and it was not told of. -/
structure Fresh (o : Outbox κ α γ β) (t : γ) : Prop where
  answered : t ∉ o.answered
  waiting : ∀ k, t ∉ o.waiting k

variable {t : γ}

omit [DecidableEq κ] in
theorem tickets_cons : tickets (a :: as) = tickets [a] ++ tickets as := by
  rw [← List.singleton_append, tickets, List.filterMap_append]
  rfl

theorem waiting_post {j : κ} {x : α} {ticket : Option γ} (k : κ)
    (h : step o (.post j x ticket) = some o') :
    o'.waiting k = if k = j then o.waiting k ++ ticket.toList else o.waiting k := by
  cases h
  by_cases hk : k = j
  · subst hk
    cases ticket <;> simp [waiting]
  · simp [waiting, hk]

theorem answered_post {j : κ} {x : α} {ticket : Option γ}
    (h : step o (.post j x ticket) = some o') : o'.answered = o.answered := by
  cases h
  rfl

theorem settle_cases {j : κ} {outcome : β} (h : step o (.settle j outcome) = some o') :
    ∃ ticket : Option γ, o.waiting j = ticket.toList ++ o'.waiting j ∧
      o'.answered = o.answered ++ ticket.toList ∧ ∀ k, k ≠ j → o'.waiting k = o.waiting k := by
  rw [step] at h
  split at h
  · contradiction
  · rename_i item rest hpending
    cases h
    refine ⟨item.2, ?_, ?_, fun k hk => ?_⟩
    · simp only [waiting, hpending, Function.update_self, List.filterMap_cons]
      cases item.2 <;> rfl
    · cases item.2 <;> simp [answered, told]
    · simp only [waiting, Function.update_of_ne hk]

theorem step_fresh (h : step o a = some o') (hfresh : o.Fresh t) (hnot : t ∉ tickets [a]) :
    o'.Fresh t := by
  cases a with
  | post j x ticket =>
    refine ⟨answered_post h ▸ hfresh.answered, fun k => ?_⟩
    have hticket : t ∉ ticket.toList := by
      cases ticket with
      | none => exact List.not_mem_nil
      | some u => simpa [tickets] using hnot
    rw [waiting_post k h]
    split
    · simp [hfresh.waiting k, hticket]
    · exact hfresh.waiting k
  | settle j outcome =>
    obtain ⟨ticket, hwaiting, hanswered, hothers⟩ := settle_cases h
    have hj := hfresh.waiting j
    rw [hwaiting, List.mem_append, not_or] at hj
    refine ⟨?_, fun k => ?_⟩
    · rw [hanswered, List.mem_append, not_or]
      exact ⟨hfresh.answered, hj.1⟩
    · by_cases hk : k = j
      · exact hk ▸ hj.2
      · exact hothers k hk ▸ hfresh.waiting k
  | answer ticket outcome =>
    cases h
    refine ⟨?_, hfresh.waiting⟩
    have hticket : t ≠ ticket := by simpa [tickets] using hnot
    simpa [answered, told, hticket] using hfresh.answered
  | forget =>
    cases h
    refine ⟨hfresh.answered, fun k => ?_⟩
    simp [waiting]

/-- A ticket that is not given out is not told of. -/
theorem run_fresh (h : EventMachine.run step o as = some o') (hfresh : o.Fresh t)
    (hnot : t ∉ tickets as) : o'.Fresh t := by
  induction as generalizing o with
  | nil =>
    cases h
    exact hfresh
  | cons a as ih =>
    obtain ⟨p, hp, hrest⟩ := EventMachine.run_cons.mp h
    rw [tickets_cons, List.mem_append, not_or] at hnot
    exact ih hrest (step_fresh hp hfresh hnot.1) hnot.2

theorem step_once (h : step o a = some o') (honce : o.Once)
    (hfresh : ∀ t ∈ tickets [a], o.Fresh t) : o'.Once := by
  cases a with
  | post j x ticket =>
    have hticket : ∀ t ∈ ticket.toList, o.Fresh t := by
      intro t ht
      refine hfresh t ?_
      cases ticket with
      | none => contradiction
      | some u => simpa [tickets] using ht
    have hmem : ∀ k, ∀ t ∈ o'.waiting k, t ∈ o.waiting k ∨ k = j ∧ t ∈ ticket.toList := by
      intro k t ht
      rw [waiting_post k h] at ht
      split at ht
      · rename_i hk
        exact (List.mem_append.mp ht).imp_right fun ht => ⟨hk, ht⟩
      · exact Or.inl ht
    refine ⟨answered_post h ▸ honce.answered, fun k => ?_, fun i k t hi hk => ?_⟩
    · rw [answered_post h, waiting_post k h]
      split
      · have hperm : (o.waiting k ++ ticket.toList ++ o.answered).Perm
            (ticket.toList ++ (o.waiting k ++ o.answered)) := by
          rw [List.append_assoc]
          exact List.perm_append_comm_assoc _ _ _
        refine hperm.nodup_iff.mpr ?_
        cases ticket with
        | none => exact honce.waiting k
        | some t =>
          have ht := hticket t List.mem_cons_self
          have hnot : t ∉ o.waiting k ++ o.answered := fun hin =>
            (List.mem_append.mp hin).elim (ht.waiting k) ht.answered
          exact List.nodup_cons.mpr ⟨hnot, honce.waiting k⟩
      · exact honce.waiting k
    · rcases hmem i t hi with hi | ⟨rfl, hi⟩ <;> rcases hmem k t hk with hk | ⟨rfl, hk⟩
      · exact honce.apart i k t hi hk
      · exact absurd hi ((hticket t hk).waiting i)
      · exact absurd hk ((hticket t hi).waiting k)
      · rfl
  | settle j outcome =>
    obtain ⟨ticket, hwaiting, hanswered, hothers⟩ := settle_cases h
    have hold : ∀ k, ∀ t ∈ o'.waiting k, t ∈ o.waiting k := by
      intro k t ht
      by_cases hk : k = j
      · subst hk
        rw [hwaiting]
        exact List.mem_append_right _ ht
      · exact hothers k hk ▸ ht
    have hj := honce.waiting j
    rw [hwaiting] at hj
    have hall : (o'.waiting j ++ o'.answered).Nodup := by
      rw [hanswered]
      refine List.Perm.nodup_iff ?_ |>.mp hj
      rw [List.append_assoc]
      exact List.perm_append_comm.trans (List.Perm.of_eq (List.append_assoc _ _ _))
    refine ⟨(List.nodup_append'.mp hall).2.1, fun k => ?_, fun i k t hi hk => ?_⟩
    · by_cases hk : k = j
      · exact hk ▸ hall
      · rw [hothers k hk, hanswered, ← List.append_assoc]
        refine List.nodup_append'.mpr ⟨honce.waiting k, ?_, fun t ht hticket => ?_⟩
        · exact (List.nodup_append'.mp (List.nodup_append'.mp hj).1).1
        · have htj : t ∈ o.waiting j := hwaiting ▸ List.mem_append_left _ hticket
          rcases List.mem_append.mp ht with ht | ht
          · exact hk (honce.apart k j t ht htj)
          · exact (List.nodup_append'.mp (honce.waiting j)).2.2 htj ht
    · exact honce.apart i k t (hold i t hi) (hold k t hk)
  | answer ticket outcome =>
    cases h
    have ht := hfresh ticket (by simp [tickets])
    have heq : (⟨o.pending, o.settled ++ [(none, some ticket, outcome)]⟩ :
        Outbox κ α γ β).answered = o.answered ++ [ticket] := by simp [answered, told]
    refine ⟨?_, fun k => ?_, honce.apart⟩
    · rw [heq]
      exact List.nodup_append'.mpr ⟨honce.answered, List.nodup_singleton _,
        List.disjoint_singleton.mpr ht.answered⟩
    · rw [heq, ← List.append_assoc]
      refine List.nodup_append'.mpr ⟨honce.waiting k, List.nodup_singleton _,
        List.disjoint_singleton.mpr ?_⟩
      rw [List.mem_append, not_or]
      exact ⟨ht.waiting k, ht.answered⟩
  | forget =>
    cases h
    have hnone : ∀ k, (⟨fun k => (o.pending k).map fun item => (item.1, none), o.settled⟩ :
        Outbox κ α γ β).waiting k = [] := fun k => by simp [waiting]
    refine ⟨honce.answered, fun k => ?_, fun i k t hi => ?_⟩
    · rw [hnone, List.nil_append]
      exact honce.answered
    · rw [hnone] at hi
      contradiction

/-- Where no ticket is given out twice, none is told of twice. -/
theorem run_once (h : EventMachine.run step o as = some o') (honce : o.Once)
    (hfresh : ∀ t ∈ tickets as, o.Fresh t) (htickets : (tickets as).Nodup) : o'.Once := by
  induction as generalizing o with
  | nil =>
    cases h
    exact honce
  | cons a as ih =>
    obtain ⟨p, hp, hrest⟩ := EventMachine.run_cons.mp h
    rw [tickets_cons] at hfresh htickets
    obtain ⟨-, hlater, hdisjoint⟩ := List.nodup_append'.mp htickets
    refine ih hrest (step_once hp honce fun t ht => hfresh t (List.mem_append_left _ ht))
      (fun t ht => ?_) hlater
    exact step_fresh hp (hfresh t (List.mem_append_right _ ht)) fun hin => hdisjoint hin ht

end Tickets

end Outbox

namespace Inbox

variable {σ μ : Type*} {receive : σ → μ → σ} {s : σ} {m : μ} {ms ns : List μ}

/-- A message that leaves every state as it is. -/
def Neutral (receive : σ → μ → σ) (m : μ) : Prop := ∀ s, receive s m = s

/-- The state once all messages have been received. -/
def settled (receive : σ → μ → σ) (s : σ) (ms : List μ) : σ := ms.foldl receive s

theorem settled_cons : settled receive s (m :: ms) = settled receive (receive s m) ms := rfl

theorem settled_append : settled receive s (ms ++ ns) = settled receive (settled receive s ms) ns :=
  List.foldl_append

theorem settled_neutral (h : ∀ m ∈ ms, Neutral receive m) : settled receive s ms = s := by
  induction ms generalizing s with
  | nil => rfl
  | cons m ms ih =>
    rw [settled_cons, h m List.mem_cons_self]
    exact ih fun x hx => h x (List.mem_cons_of_mem m hx)

variable [BEq μ] [LawfulBEq μ]

/-- A neutral message can be taken at any time. -/
theorem settled_erase (h : Neutral receive m) :
    settled receive s (ms.erase m) = settled receive s ms := by
  induction ms generalizing s with
  | nil => rfl
  | cons x ms ih =>
    by_cases hx : x = m
    · subst hx
      rw [List.erase_cons_head, settled_cons, h]
    · rw [List.erase_cons_tail (by simpa using hx), settled_cons, settled_cons]
      exact ih

/-- Taking the first of the messages that are not neutral. -/
theorem settled_first {p : μ → Bool} (hneutral : ∀ x ∈ ms, p x = false → Neutral receive x)
    (hfirst : ms.find? p = some m) :
    settled receive (receive s m) (ms.erase m) = settled receive s ms := by
  obtain ⟨hm, before, after, rfl, hbefore⟩ := List.find?_eq_some_iff_append.mp hfirst
  have hpass : ∀ x ∈ before, Neutral receive x := by
    intro x hx
    exact hneutral x (List.mem_append_left _ hx) (by simpa using hbefore x hx)
  have hnot : m ∉ before := by
    intro hmem
    have hp := hbefore m hmem
    simp [hm] at hp
  rw [List.erase_append_right _ hnot, List.erase_cons_head, settled_append, settled_append,
    settled_neutral hpass, settled_neutral hpass, settled_cons]

end Inbox
