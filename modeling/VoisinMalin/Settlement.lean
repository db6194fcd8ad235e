import VoisinMalin.Library.Run
import VoisinMalin.Favourite
import VoisinMalin.Swipes
import Mathlib.Algebra.Ring.Nat

/-! Every operation of the clients comes to its end. A query is evaluated and answered, an answer
brings one write for each of its documents, a write is applied or fails, and an acknowledgement ends
it: so what is under way bounds the steps that Firestore and the main queues can take, whatever the
users do in between, and from every state these steps lead to one in which nothing is under way. -/

namespace VoisinMalin

open EventMachine World

variable {Double : Type}

/-- The documents that a task is about. -/
def Task.ids : Task → Finset DocID
  | .query _ _ | .ack _ _ => ∅
  | .answer ids _ => ids.toFinset
  | .write wr _ => {wr.id}

/-- The documents that there are, or that something under way may bring about. -/
def World.reach (w : World Double) : Finset DocID := w.ads.keys ∪ w.pending.toFinset.biUnion Task.ids

/-- The steps that a task may take, when `n` documents can be in an answer. -/
def Task.work (n : ℕ) : Task → ℕ
  | .query _ _ => 2 + 2 * n
  | .answer ids _ => 1 + 2 * ids.length
  | .write _ _ => 2
  | .ack _ _ => 1

def World.work (n : ℕ) (w : World Double) : ℕ := (w.pending.map (Task.work n)).sum

section Step

variable {w u : World Double} {e : Event Double} {t : Task} {n : ℕ}

theorem mem_reach {id : DocID} :
    id ∈ w.reach ↔ id ∈ w.ads ∨ ∃ t ∈ w.pending, id ∈ t.ids := by
  simp [reach, Finmap.mem_keys]

/-- An answer has documents of the collection only. -/
theorem evaluate_ids {q : Query} {k : Callback} {ids : List DocID}
    (h : step w (.evaluate q k ids) = some u) : ids.Nodup ∧ ∀ id ∈ ids, id ∈ w.ads := by
  simp only [step] at h
  split at h
  · rename_i hids
    refine ⟨hids.1, fun id hid => ?_⟩
    obtain ⟨data, hdata, -⟩ := Query.mem_ids.mp (hids.2 ▸ List.mem_toFinset.mpr hid)
    exact Finmap.mem_of_lookup_eq_some hdata
  · contradiction

/-- What an event issues is about documents that it draws or that are in reach. -/
theorem issued_reach (h : step w e = some u) (ht : t ∈ w.issued e) {id : DocID} (hid : id ∈ t.ids) :
    id ∈ w.reach ∨ e.draws = some id := by
  have htaken := fun t' ht' => (step_effect h).taken t' ht'
  cases mem_issued ht with
  | viewDidAppear | favoriteButton | delButtonPressed | commit | apply | fail =>
    simp [Task.ids] at hid
  | homeCommit dev new | publishButton dev new data =>
    rw [Task.ids, Finset.mem_singleton] at hid
    exact Or.inr (by rw [hid]; rfl)
  | evaluate q k ids =>
    rw [Task.ids, List.mem_toFinset] at hid
    exact Or.inl (mem_reach.mpr (Or.inl ((evaluate_ids h).2 id hid)))
  | misEnFavoris screen flag mem | favorisRemoved screen flag mem | annonceSuprimee mem
  | swiped mem =>
    rw [Task.ids, Finset.mem_singleton] at hid
    subst hid
    exact Or.inl (mem_reach.mpr (Or.inr ⟨_, htaken _ rfl, List.mem_toFinset.mpr mem⟩))

/-- A step brings the document IDs that it draws into reach, and no other. -/
theorem step_reach (h : step w e = some u) {id : DocID} (hid : id ∈ u.reach) :
    id ∈ w.reach ∨ e.draws = some id := by
  rcases mem_reach.mp hid with hads | ⟨t, ht, hid⟩
  · by_cases happly : ∃ wr c, e = .apply wr c
    · obtain ⟨wr, c, rfl⟩ := happly
      obtain ⟨hmem, ⟨ads, happly, rfl⟩ | ⟨-, rfl⟩⟩ := step_apply h
      · obtain ⟨data, -, hlookup⟩ := Write.lookup_apply happly
        refine Or.inl (mem_reach.mpr ?_)
        by_cases hwrite : id = wr.id
        · exact Or.inr ⟨_, hmem, by simp [Task.ids, hwrite]⟩
        · have hsame := hlookup id
          rw [if_neg hwrite] at hsame
          rw [← Finmap.lookup_isSome, hsame, Finmap.lookup_isSome] at hads
          exact Or.inl hads
      · exact Or.inl (mem_reach.mpr (Or.inl hads))
    · rw [(step_effect h).ads fun wr c he => happly ⟨wr, c, he⟩] at hads
      exact Or.inl (mem_reach.mpr (Or.inl hads))
  · rcases mem_step_pending h ht with hold | hissued
    · exact Or.inl (mem_reach.mpr (Or.inr ⟨t, hold, hid⟩))
    · exact issued_reach h hissued hid

/-- The work after a step. -/
theorem step_work (h : step w e = some u) : u.work n + (e.taken.map (Task.work n)).getD 0 =
    w.work n + ((w.issued e).map (Task.work n)).sum := by
  have heffect := step_effect h
  rw [work, heffect.pending, List.map_append, List.sum_append, work]
  cases htaken : e.taken with
  | none => simp
  | some t =>
    have hsum := List.sum_map_erase (Task.work n) (heffect.taken t htaken)
    simp only [Option.map_some, Option.getD_some]
    omega

/-- The callback of a query issues at most one write for each document. -/
theorem answerWrites_work (ids : List DocID) (k : Callback) :
    ((w.answerWrites ids k).map (Task.work n)).sum ≤ 2 * ids.length := by
  have hwrites : ∀ writes : List Task, writes.length = ids.length →
      (∀ t ∈ writes, Task.work n t = 2) → (writes.map (Task.work n)).sum ≤ 2 * ids.length := by
    intro writes hlength hwork
    have htwos : writes.map (Task.work n) = List.replicate ids.length 2 := by
      refine List.eq_replicate_iff.mpr ⟨by rw [List.length_map, hlength], fun k hk => ?_⟩
      obtain ⟨t, ht, rfl⟩ := List.mem_map.mp hk
      exact hwork t ht
    rw [htwos, List.sum_replicate_nat, Nat.mul_comm]
  cases k with
  | checkFavorites sc => simp [answerWrites]
  | favoriteButton sc =>
    simp only [answerWrites]
    cases w.screens sc with
    | none => simp
    | some s =>
      refine hwrites _ (by simp [favoriteWrites]) fun t ht => ?_
      simp only [Option.map_some, Option.getD_some, favoriteWrites, List.mem_map] at ht
      obtain ⟨id, -, rfl⟩ := ht
      split <;> rfl
  | delButtonPressed sc | commit dev =>
    refine hwrites _ (by simp [answerWrites]) fun t ht => ?_
    simp only [answerWrites, List.mem_map] at ht
    obtain ⟨id, -, rfl⟩ := ht
    rfl

/-- Taking up a task leaves less work than the task was. -/
theorem settles_work (he : e.settles = true) (h : step w e = some u) (hn : w.ads.keys.card ≤ n) :
    u.work n < w.work n := by
  have hwork := step_work (n := n) h
  cases e with
  | evaluate q k ids =>
    obtain ⟨hnodup, hads⟩ := evaluate_ids h
    have hlength : ids.length ≤ n := by
      rw [← List.toFinset_card_of_nodup hnodup]
      refine le_trans (Finset.card_le_card fun id hid => ?_) hn
      exact Finmap.mem_keys.mpr (hads id (List.mem_toFinset.mp hid))
    simp only [Event.taken, issued, Option.map_some, Option.getD_some, Task.work, List.map_cons,
      List.map_nil, List.sum_cons, List.sum_nil] at hwork
    omega
  | apply wr c =>
    simp only [Event.taken, issued, Option.map_some, Option.getD_some, Task.work, List.map_cons,
      List.map_nil, List.sum_cons, List.sum_nil] at hwork
    omega
  | fail t =>
    cases t with
    | answer ids k | ack ok c => contradiction
    | query q k | write wr c =>
      simp only [Event.taken, issued, Option.map_some, Option.getD_some, Task.work, List.map_cons,
        List.map_nil, List.sum_cons, List.sum_nil] at hwork
      omega
  | deliver t =>
    cases t with
    | query q k | write wr c => contradiction
    | answer ids k =>
      have hwrites := answerWrites_work (w := w) (n := n) ids k
      simp only [Event.taken, issued, Option.map_some, Option.getD_some, Task.work] at hwork
      omega
    | ack ok c =>
      simp only [Event.taken, issued, Option.map_some, Option.getD_some, Task.work, List.map_nil,
        List.sum_nil] at hwork
      omega
  | _ => contradiction

end Step

section Run

variable {w u : World Double} {es : List (Event Double)} {n : ℕ}

/-- The next step of what is under way. -/
theorem exists_progress (hbusy : w.pending ≠ []) :
    ∃ e u, e.progresses = true ∧ step w e = some u := by
  obtain ⟨t, ht⟩ := List.exists_mem_of_ne_nil _ hbusy
  have htake : w.take t = some { w with pending := w.pending.erase t } :=
    take_eq_some.mpr ⟨ht, rfl⟩
  cases t with
  | query q k =>
    have hids := And.intro (Finset.nodup_toList (q.ids w.ads)) (Finset.toList_toFinset (q.ids w.ads))
    exact ⟨.evaluate q k (q.ids w.ads).toList, _, rfl, by rw [step, if_pos hids, htake]; rfl⟩
  | answer ids k => exact ⟨.deliver (.answer ids k), _, rfl, by rw [step, htake]; rfl⟩
  | write wr c => exact ⟨.apply wr c, _, rfl, by rw [step, htake]; rfl⟩
  | ack ok c => exact ⟨.deliver (.ack ok c), _, rfl, by rw [step, htake]; rfl⟩

theorem settles_of_progresses {e : Event Double} (h : e.progresses = true) : e.settles = true := by
  cases e <;> first | rfl | contradiction

/-- From every state some run of Firestore and the main queues, without a failure, leads to a state
in which nothing is under way, in no more steps than what is under way asks for. -/
theorem settles_idle (w : World Double) :
    ∃ es u, (∀ e ∈ es, e.progresses = true) ∧ run step w es = some u ∧ u.pending = [] ∧
      es.length ≤ w.work w.reach.card := by
  have hdone : ∃ es u, Offered step (fun _ (e : Event Double) => e.progresses = true) w es ∧
      run step w es = some u ∧ u.reach ⊆ w.reach ∧ u.pending = [] ∧
        es.length ≤ w.work w.reach.card := by
    refine exists_run_done (I := fun v : World Double => v.reach ⊆ w.reach)
      (fun v hv hbusy => ?_) (Finset.Subset.refl _)
    obtain ⟨e, x, he, hstep⟩ := exists_progress hbusy
    have hsettles := settles_of_progresses he
    refine ⟨e, x, he, hstep, fun id hid => ?_, settles_work hsettles hstep ?_⟩
    · rcases step_reach hstep hid with hold | hdraws
      · exact hv hold
      · cases e <;> contradiction
    · exact Finset.card_le_card fun id hid => hv (mem_reach.mpr (Or.inl (Finmap.mem_keys.mp hid)))
  obtain ⟨es, u, hes, hrun, -, hidle, hlength⟩ := hdone
  exact ⟨es, u, hes.forall_mem hrun, hrun, hidle, hlength⟩

end Run

end VoisinMalin
