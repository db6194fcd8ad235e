import VoisinMalin.Clients

/-! One operation of a controller from the press to its last acknowledgement: a query, its answer,
and one write for each document of the answer. Whatever the order in which Firestore applies and
acknowledges the writes, the documents that the query selects are the ones updated. -/

namespace VoisinMalin

open World

variable {Double : Type}

/-- The events by which what is under way goes on, without a failure or another user action. -/
def Event.progresses : Event Double → Bool
  | .evaluate _ _ _ | .apply _ _ | .deliver _ => true
  | _ => false

/-- A user action in `w` that sends one query and answers it with one write for each document. -/
structure Operation (w : World Double) where
  event : Event Double
  query : Query
  callback : Callback
  write : DocID → Write
  completion : Completion
  update : Fields → Option Fields
  asks : step w event = some (w.issue [.query query callback])
  answers : ∀ (u : World Double) (ids : List DocID), u.session = w.session →
    u.screens = w.screens → u.answered ids callback = u.issue (ids.map fun id =>
      .write (write id) completion)
  addresses : ∀ id, (write id).id = id
  updates : ∀ id data, (write id).document (some data) = some (update data)

namespace Operation

variable {w u v : World Double} (op : Operation w)

def task (id : DocID) : Task := .write (op.write id) op.completion

theorem task_injective {i j : DocID} (h : op.task i = op.task j) : i = j := by
  have hw : op.write i = op.write j := (Task.write.inj h).1
  rw [← op.addresses i, hw, op.addresses]

/-- Once a write has been applied and waits to be acknowledged, the writes under way are those for
the other documents. -/
theorem task_mem_applied (once : ∀ id, u.pending.count (op.task id) ≤ 1) (id i : DocID) :
    op.task i ∈ u.pending.erase (op.task id) ++ [.ack true op.completion] ↔
      i ≠ id ∧ op.task i ∈ u.pending := by
  have hack : op.task i ∉ [Task.ack true op.completion] := by simp [task]
  rw [List.mem_append, or_iff_left hack]
  by_cases hi : i = id
  · subst hi
    have hcount : (u.pending.erase (op.task i)).count (op.task i) = 0 := by
      rw [List.count_erase_self]
      have := once i
      omega
    simp [List.count_eq_zero.mp hcount]
  · rw [List.mem_erase_of_ne fun h => hi (op.task_injective h)]
    exact ⟨fun h => ⟨hi, h⟩, And.right⟩

/-- Where an operation without other activity stands. -/
inductive Stage : World Double → Prop
  | asked {u : World Double} (ads : u.ads = w.ads) (session : u.session = w.session)
      (screens : u.screens = w.screens) (pending : u.pending = [.query op.query op.callback]) :
      Stage u
  | answered {u : World Double} (ids : List DocID) (nodup : ids.Nodup)
      (selected : ids.toFinset = op.query.ids w.ads) (ads : u.ads = w.ads)
      (session : u.session = w.session) (screens : u.screens = w.screens)
      (pending : u.pending = [.answer ids op.callback]) : Stage u
  | writing {u : World Double} (ids : List DocID) (selected : ids.toFinset = op.query.ids w.ads)
      (tasks : ∀ t ∈ u.pending, (∃ id ∈ ids, t = op.task id) ∨ ∃ ok, t = .ack ok op.completion)
      (once : ∀ id, u.pending.count (op.task id) ≤ 1)
      (docs : ∀ id, u.ads.lookup id = if id ∈ ids ∧ op.task id ∉ u.pending then
        (w.ads.lookup id).bind op.update else w.ads.lookup id) : Stage u

variable {op}

theorem stage_evaluate {q : Query} {k : Callback} {ids : List DocID} (h : op.Stage u)
    (hstep : step u (.evaluate q k ids) = some v) : op.Stage v := by
  simp only [step] at hstep
  split at hstep
  · rename_i hids
    obtain ⟨x, hx, rfl⟩ := Option.map_eq_some_iff.mp hstep
    obtain ⟨hmem, rfl⟩ := take_eq_some.mp hx
    cases h with
    | asked ads session screens pending =>
      rw [pending, List.mem_singleton] at hmem
      obtain ⟨rfl, rfl⟩ := Task.query.inj hmem
      exact .answered ids hids.1 (by rw [hids.2, ads]) ads session screens (by simp [pending])
    | answered ids nodup selected ads session screens pending => simp [pending] at hmem
    | writing ids selected tasks once docs =>
      rcases tasks _ hmem with ⟨id, -, h⟩ | ⟨ok, h⟩
      · simp [task] at h
      · simp at h
  · contradiction

/-- Issuing one write for each document of the answer starts the writing. -/
theorem stage_writes {ids : List DocID} (nodup : ids.Nodup)
    (selected : ids.toFinset = op.query.ids w.ads) (ads : u.ads = w.ads) (pending : u.pending = []) :
    op.Stage (u.issue (ids.map op.task)) := by
  refine .writing ids selected (fun t ht => ?_) (fun id => ?_) (fun id => ?_)
  · simp only [issue_pending, pending, List.nil_append, List.mem_map] at ht
    obtain ⟨id, hid, rfl⟩ := ht
    exact Or.inl ⟨id, hid, rfl⟩
  · simp only [issue_pending, pending, List.nil_append]
    have hmap : (ids.map op.task).Nodup :=
      List.Nodup.map (fun i j h => op.task_injective h) nodup
    exact List.nodup_iff_count_le_one.mp hmap _
  · have hnot : ¬(id ∈ ids ∧ op.task id ∉ (u.issue (ids.map op.task)).pending) := by
      rintro ⟨hid, hpending⟩
      exact hpending (by simp only [issue_pending, List.mem_append, List.mem_map]
                         exact Or.inr ⟨id, hid, rfl⟩)
    rw [if_neg hnot, issue_ads, ads]

theorem stage_deliver {t : Task} (h : op.Stage u) (hstep : step u (.deliver t) = some v) :
    op.Stage v := by
  cases t with
  | query q k | write wr c => contradiction
  | answer ids k =>
    obtain ⟨x, hx, rfl⟩ := Option.map_eq_some_iff.mp hstep
    obtain ⟨hmem, rfl⟩ := take_eq_some.mp hx
    cases h with
    | asked ads session screens pending => simp [pending] at hmem
    | answered ids' nodup selected ads session screens pending =>
      rw [pending, List.mem_singleton] at hmem
      obtain ⟨rfl, rfl⟩ := Task.answer.inj hmem
      have hanswers := op.answers { u with pending := u.pending.erase (.answer ids op.callback) }
        ids session screens
      rw [hanswers]
      exact stage_writes nodup selected ads (by simp [pending])
    | writing ids' selected tasks once docs =>
      rcases tasks _ hmem with ⟨id, -, h⟩ | ⟨ok, h⟩
      · simp [task] at h
      · simp at h
  | ack ok c =>
    obtain ⟨x, hx, rfl⟩ := Option.map_eq_some_iff.mp hstep
    obtain ⟨hmem, rfl⟩ := take_eq_some.mp hx
    cases h with
    | asked ads session screens pending => simp [pending] at hmem
    | answered ids' nodup selected ads session screens pending => simp [pending] at hmem
    | writing ids' selected tasks once docs =>
      have hne : ∀ id, op.task id ≠ .ack ok c := fun id h => by simp [task] at h
      refine .writing ids' selected (fun t ht => ?_) (fun id => ?_) (fun id => ?_)
      · rw [completed_pending] at ht
        exact tasks t (List.mem_of_mem_erase ht)
      · rw [completed_pending]
        exact le_trans (List.erase_sublist.count_le _) (once id)
      · rw [completed_ads, completed_pending]
        simp only [List.mem_erase_of_ne (hne id)]
        exact docs id

/-- The application of a write updates its document, which no write still under way addresses. -/
theorem stage_apply {wr : Write} {c : Completion} (h : op.Stage u)
    (hstep : step u (.apply wr c) = some v) : op.Stage v := by
  obtain ⟨hmem, hcases⟩ := step_apply hstep
  cases h with
  | asked ads session screens pending => simp [pending] at hmem
  | answered ids nodup selected ads session screens pending => simp [pending] at hmem
  | writing ids selected tasks once docs =>
    obtain ⟨id, hid, htask⟩ | ⟨ok, hack⟩ := tasks _ hmem
    swap
    · simp at hack
    obtain ⟨rfl, rfl⟩ := Task.write.inj htask
    have hpending : op.task id ∈ u.pending := hmem
    -- The document of `id` is still the initial one, and the query selected it.
    obtain ⟨data, hdata, -⟩ := Query.mem_ids.mp (selected ▸ List.mem_toFinset.mpr hid)
    have hlookup : u.ads.lookup id = some data := by
      rw [docs id, if_neg fun hn => hn.2 hpending, hdata]
    have hdocument : (op.write id).document (u.ads.lookup (op.write id).id) =
        some (op.update data) := by
      rw [op.addresses, hlookup, op.updates]
    rcases hcases with ⟨ads, happly, rfl⟩ | ⟨happly, rfl⟩
    · obtain ⟨updated, hupdated, hads⟩ := Write.lookup_apply happly
      rw [hdocument] at hupdated
      cases hupdated
      simp only [op.addresses] at hads
      refine .writing ids selected (fun t ht => ?_) (fun i => ?_) (fun i => ?_)
      · rcases List.mem_append.mp ht with ht | ht
        · exact tasks t (List.mem_of_mem_erase ht)
        · exact Or.inr ⟨true, List.mem_singleton.mp ht⟩
      · rw [List.count_append, List.count_singleton, if_neg (by simp [task])]
        exact le_trans (List.erase_sublist.count_le _) (once i)
      · have hads' := hads i
        have herase := op.task_mem_applied once id i
        by_cases hi : i = id
        · subst hi
          have hgone : op.task i ∉ u.pending.erase (op.task i) ++ [.ack true op.completion] :=
            fun h => (herase.mp h).1 rfl
          rw [if_pos rfl] at hads'
          rw [if_pos ⟨hid, hgone⟩, hdata]
          exact hads'
        · rw [if_neg hi, docs i] at hads'
          refine hads'.trans (if_congr (and_congr_right fun _ => not_congr ?_) rfl rfl)
          exact ⟨fun h => herase.mpr ⟨hi, h⟩, fun h => (herase.mp h).2⟩
    · rw [Write.apply, hdocument] at happly
      simp at happly

theorem stage_step {e : Event Double} (h : op.Stage u) (he : e.progresses = true)
    (hstep : step u e = some v) : op.Stage v := by
  cases e with
  | evaluate q k ids => exact stage_evaluate h hstep
  | apply wr c => exact stage_apply h hstep
  | deliver t => exact stage_deliver h hstep
  | _ => simp [Event.progresses] at he

/-- Once nothing of an operation is under way, every document that its query selects has been
updated and every other document is as before. -/
theorem finished {es : List (Event Double)} (hidle : w.pending = [])
    (hrun : EventMachine.run step w (op.event :: es) = some u)
    (hes : ∀ e ∈ es, e.progresses = true) (hdone : u.pending = []) (id : DocID) :
    u.ads.lookup id =
      (w.ads.lookup id).bind fun data => if op.query.selects data then op.update data
        else some data := by
  obtain ⟨x, hx, hrest⟩ := EventMachine.run_cons.mp hrun
  rw [op.asks] at hx
  cases hx
  have hstart : op.Stage (w.issue [.query op.query op.callback]) :=
    .asked rfl rfl rfl (by simp [hidle])
  have hstage : op.Stage u := EventMachine.run_preserves_of (I := op.Stage)
    (A := fun e => e.progresses = true) (fun s e t h he => stage_step h he) hstart hes hrest
  cases hstage with
  | asked ads session screens pending => simp [hdone] at pending
  | answered ids nodup selected ads session screens pending => simp [hdone] at pending
  | writing ids selected tasks once docs =>
    rw [docs id, hdone]
    cases hdata : w.ads.lookup id with
    | none => simp
    | some data =>
      have hmem : id ∈ ids ↔ op.query.selects data = true := by
        rw [← List.mem_toFinset, selected, Query.mem_ids]
        simp [hdata]
      simp [hmem]

end Operation

end VoisinMalin
