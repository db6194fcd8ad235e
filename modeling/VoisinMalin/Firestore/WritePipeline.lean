import VoisinMalin.Firestore.WriteStream

/-! What the tasks of a client keep: the pipeline has the first batches of the user's queue, the stream
is started where there is one to send, and a call to the backend has to answer each of them. So no
assertion of the write path fails. -/

namespace VoisinMalin

open SortedMap

section Stream

variable {w w' : WriteStream} {network : Bool} {n : ℕ}

namespace WriteStream

/-- How the stream stands to `n` writes in the pipeline, also in the course of a task. -/
structure Attached (w : WriteStream) (network : Bool) (n : ℕ) : Prop where
  tokens : w.token_requests.count w.close_count = if w.state = .Starting then 1 else 0
  requested : ∀ k ∈ w.token_requests, k ≤ w.close_count
  calls : w.grpc_stream =
    if w.state = .Open then some (if w.handshake_complete then n else 1) else none
  needed : w.IsStarted = true → n = 0 → w.state = .Open ∧ w.handshake_complete = true
  idle : w.idleness_timer = true → w.state = .Open ∧ n = 0
  offline : network = false → w.IsStarted = false ∧ n = 0

/-- How the stream stands to `n` writes in the pipeline between the tasks. -/
structure Serves (w : WriteStream) (network : Bool) (n : ℕ) : Prop extends Attached w network n where
  started : n ≠ 0 → w.IsStarted = true
  handshake : w.handshake_complete = true → w.state = .Open

/-- What filling the pipeline keeps of the stream. -/
structure Extends (w w' : WriteStream) : Prop where
  handshake : w'.handshake_complete = w.handshake_complete
  opened : w'.state = .Open ↔ w.state = .Open

theorem Extends.refl (w : WriteStream) : Extends w w := ⟨rfl, Iff.rfl⟩

theorem Extends.trans {w'' : WriteStream} (h : Extends w w') (h' : Extends w' w'') :
    Extends w w'' :=
  ⟨h'.handshake.trans h.handshake, h'.opened.trans h.opened⟩

theorem isOpen_iff : w.IsOpen = true ↔ w.state = .Open := beq_iff_eq

theorem isStarted_of_open (h : w.state = .Open) : w.IsStarted = true := by
  simp [IsStarted, IsOpen, h]

/-- A stream that waits for its token or for the end of a backoff has something to send. -/
theorem start_ok (h : w.Attached true n) (hnot : w.IsStarted = false) (hn : n ≠ 0) :
    ∃ w', w.Start = .ok w' ∧ w'.Attached true n ∧ Extends w w' ∧ w'.IsStarted = true := by
  have hidle : w.idleness_timer = false := by
    by_contra hidle
    exact hn (h.idle (by simpa using hidle)).2
  have htokens := h.tokens
  have hcalls := h.calls
  rcases hstate : w.state with _ | _ | _ | _ | _
  · rw [hstate] at htokens hcalls
    refine ⟨({ w with state := .Starting } : WriteStream).RequestCredentials, ?_,
      ⟨?_, fun k hk => ?_, hcalls, fun _ h0 => absurd h0 hn, fun hi => ?_, by simp⟩,
      ⟨rfl, by simp [RequestCredentials, hstate]⟩, rfl⟩
    · simp [Start, hstate]
    · simp [RequestCredentials, htokens]
    · rcases List.mem_cons.mp hk with rfl | hk
      · exact le_rfl
      · exact h.requested k hk
    · exact absurd hi (by simp [RequestCredentials, hidle])
  · simp [IsStarted, hstate] at hnot
  · simp [IsStarted, IsOpen, hstate] at hnot
  · rw [hstate] at htokens hcalls
    refine ⟨{ w with state := .Backoff }, ?_, ⟨htokens, h.requested, hcalls,
      fun _ h0 => absurd h0 hn, fun hi => absurd hi (by simp [hidle]), by simp⟩,
      ⟨rfl, by simp [hstate]⟩, rfl⟩
    simp [Start, BackoffAndTryRestarting, hstate]
  · simp [IsStarted, hstate] at hnot

theorem writeMutations_ok (h : w.Attached network n) (hopen : w.state = .Open)
    (hhandshake : w.handshake_complete = true) :
    ∃ w', w.WriteMutations = .ok w' ∧ w'.Attached network (n + 1) ∧ Extends w w' := by
  have hcalls := h.calls
  rw [hopen, hhandshake] at hcalls
  refine ⟨{ w with idleness_timer := false, grpc_stream := some (n + 1) }, ?_,
    ⟨h.tokens, h.requested, by simp [hopen, hhandshake], by simp, by simp, fun hoff => ?_⟩,
    ⟨rfl, Iff.rfl⟩⟩
  · simp [WriteMutations, Write, isOpen_iff.mpr hopen, hhandshake, hcalls]
  · exact absurd (h.offline hoff).1 (by simp [isStarted_of_open hopen])

/-- The writes that are sent after the handshake. -/
theorem writeAll_ok (batches : List MutationBatch) (h : w.Attached network n)
    (hopen : w.state = .Open) (hhandshake : w.handshake_complete = true) :
    ∃ w', batches.foldlM (fun w _ => w.WriteMutations) w = .ok w' ∧
      w'.Attached network (n + batches.length) ∧ Extends w w' := by
  induction batches generalizing w n with
  | nil => exact ⟨w, rfl, h, .refl w⟩
  | cons batch batches ih =>
    obtain ⟨v, hv, hattached, hext⟩ := writeMutations_ok h hopen hhandshake
    obtain ⟨w', hw', hattached', hext'⟩ :=
      ih hattached (hext.opened.mpr hopen) (hext.handshake.trans hhandshake)
    refine ⟨w', ?_, ?_, hext.trans hext'⟩
    · rw [List.foldlM_cons]
      exact bind_ok hv hw'
    · rwa [List.length_cons, Nat.add_comm batches.length, ← Nat.add_assoc]

theorem markIdle_attached (h : w.Attached network 0) :
    w.MarkIdle.Attached network 0 ∧ Extends w w.MarkIdle := by
  unfold MarkIdle
  split
  · rename_i hcond
    have hopen := isOpen_iff.mp (Bool.and_eq_true_iff.mp hcond).1
    exact ⟨⟨h.tokens, h.requested, h.calls, h.needed, fun _ => ⟨hopen, rfl⟩, h.offline⟩, ⟨rfl, Iff.rfl⟩⟩
  · exact ⟨h, .refl w⟩

/-- A stream that was stopped takes any number of writes. -/
theorem inhibitBackoff_ok (h : w.Attached network n) (hstopped : w.IsStarted = false) :
    w.InhibitBackoff = .ok { w with state := .Initial } ∧
      ∀ m, ({ w with state := .Initial } : WriteStream).Attached true m := by
  have hopen : w.state ≠ .Open := fun hopen => by simp [isStarted_of_open hopen] at hstopped
  have hstarting : w.state ≠ .Starting := fun hstate => by simp [IsStarted, hstate] at hstopped
  refine ⟨?_, fun m => ⟨?_, h.requested, ?_, fun hs => ?_, fun hi => ?_, by simp⟩⟩
  · simp [InhibitBackoff, hstopped]
  · exact h.tokens.trans (if_neg hstarting)
  · exact h.calls.trans (if_neg hopen)
  · contradiction
  · exact absurd (h.idle hi).1 hopen

/-- A write is put into the pipeline while nothing can be sent. -/
theorem Attached.wait (h : w.Attached true n)
    (hnot : ¬(w.state = .Open ∧ w.handshake_complete = true)) : w.Attached true (n + 1) := by
  refine ⟨h.tokens, h.requested, ?_, by simp, fun hidle => ?_, by simp⟩
  · rw [h.calls]
    split
    · rename_i hopen
      rw [if_neg fun hhandshake => hnot ⟨hopen, hhandshake⟩,
        if_neg fun hhandshake => hnot ⟨hopen, hhandshake⟩]
    · rfl
  · obtain ⟨hopen, hn⟩ := h.idle hidle
    exact absurd (h.needed (isStarted_of_open hopen) hn) hnot

end WriteStream

end Stream

/-- The local store between the tasks. -/
structure LocalStore.Sound (s : LocalStore) : Prop where
  consistent : s.db.Consistent
  positive : s.db.Positive
  below : s.db.Below s.mutation_queue.next_batch_id
  next : 0 < s.mutation_queue.next_batch_id

namespace FirestoreClient

/-- The batches of the user. -/
def queue (c : FirestoreClient) : List MutationBatch := c.local_store.db.of c.current_user

/-- What a client keeps besides the pipeline: the queue is that of the user, and each handler waits for
a batch. -/
structure Stored (c : FirestoreClient) : Prop where
  store : c.local_store.Sound
  user : c.local_store.mutation_queue.user_id = c.current_user
  callbacks : Sorted c.mutation_callbacks
  waiting : ∀ key ∈ keys c.mutation_callbacks,
    ∃ batch ∈ c.local_store.db.of key.user_id, batch.batch_id = key.batch_id

/-- The batches that belong into the pipeline. -/
def due (c : FirestoreClient) : List MutationBatch :=
  if c.is_network_enabled = true then c.queue.take kMaxPendingWrites else []

/-- A client between its tasks. -/
structure Sound (c : FirestoreClient) : Prop extends Stored c where
  pipeline : c.write_pipeline = c.due
  stream : c.write_stream.Serves c.is_network_enabled c.write_pipeline.length

section Fill

variable {c : FirestoreClient} {batch : MutationBatch} {batches rest : List MutationBatch}
  {last id : BatchId}

theorem getNextMutationBatch_eq (h : c.Stored) :
    c.GetNextMutationBatch id = c.queue.find? fun batch => decide (id < batch.batch_id) := by
  rw [GetNextMutationBatch, LevelDbMutationQueue.nextMutationBatch_eq h.store.consistent, h.user]
  rfl

theorem queue_ascending (h : c.Stored) :
    c.queue.Pairwise fun a b => a.batch_id < b.batch_id :=
  MutationTables.of_ascending h.store.consistent c.current_user

theorem queue_positive (h : c.Stored) (hbatch : batch ∈ c.queue) : 0 < batch.batch_id :=
  h.store.positive _ ((MutationTables.mem_of h.store.consistent).mp hbatch)

theorem addToWritePipeline_ok (hnetwork : c.is_network_enabled = true)
    (hplace : c.write_pipeline.length < kMaxPendingWrites)
    (hw : c.write_stream.Attached true c.write_pipeline.length) (batch : MutationBatch) :
    ∃ w, c.AddToWritePipeline batch =
        .ok { c with write_pipeline := c.write_pipeline ++ [batch], write_stream := w } ∧
      w.Attached true (c.write_pipeline.length + 1) ∧ c.write_stream.Extends w := by
  have hcan : c.CanAddToWritePipeline = true := by
    simp [CanAddToWritePipeline, CanUseNetwork, hnetwork, hplace]
  unfold AddToWritePipeline
  simp only [hcan, Bool.not_true, Bool.false_eq_true, if_false]
  split
  · rename_i hcond
    obtain ⟨hopen, hhandshake⟩ := Bool.and_eq_true_iff.mp hcond
    obtain ⟨w, hok, hattached, hext⟩ :=
      WriteStream.writeMutations_ok hw (WriteStream.isOpen_iff.mp hopen) hhandshake
    exact ⟨w, bind_ok hok rfl, hattached, hext⟩
  · rename_i hcond
    refine ⟨c.write_stream, rfl, hw.wait fun hboth => hcond ?_, .refl _⟩
    exact Bool.and_eq_true_iff.mpr ⟨WriteStream.isOpen_iff.mpr hboth.1, hboth.2⟩

theorem take_queue (hqueue : c.queue = c.write_pipeline ++ rest)
    (hplaces : c.write_pipeline.length ≤ kMaxPendingWrites)
    (h : c.write_pipeline.length = kMaxPendingWrites ∨ rest = []) :
    c.queue.take kMaxPendingWrites = c.write_pipeline := by
  rw [hqueue]
  rcases h with hfull | rfl
  · rw [← hfull, List.take_left]
  · rw [List.append_nil, List.take_of_length_le hplaces]

/-- The loop puts the batches after the pipeline into it as long as there is a place. -/
theorem fillLoop_ok (turns : ℕ) (h : c.Stored) (hnetwork : c.is_network_enabled = true)
    (hqueue : c.queue = c.write_pipeline ++ rest) (hlast : ∀ b ∈ c.write_pipeline, b.batch_id ≤ last)
    (hrest : ∀ b ∈ rest, last < b.batch_id) (hplaces : c.write_pipeline.length ≤ kMaxPendingWrites)
    (hturns : kMaxPendingWrites ≤ c.write_pipeline.length + turns)
    (hw : c.write_stream.Attached true c.write_pipeline.length) :
    ∃ w, FillWritePipeline.loop turns last c =
        .ok { c with write_pipeline := c.queue.take kMaxPendingWrites, write_stream := w } ∧
      w.Attached true (c.queue.take kMaxPendingWrites).length ∧ c.write_stream.Extends w := by
  induction turns generalizing c last rest with
  | zero =>
    rw [take_queue hqueue hplaces (Or.inl (le_antisymm hplaces hturns))]
    exact ⟨c.write_stream, rfl, hw, .refl _⟩
  | succ turns ih =>
    rw [FillWritePipeline.loop]
    by_cases hfull : c.write_pipeline.length = kMaxPendingWrites
    · rw [take_queue hqueue hplaces (Or.inl hfull)]
      refine ⟨c.write_stream, if_pos ?_, hw, .refl _⟩
      simp [CanAddToWritePipeline, hfull]
    · have hplace := lt_of_le_of_ne hplaces hfull
      have hcan : c.CanAddToWritePipeline = true := by
        simp [CanAddToWritePipeline, CanUseNetwork, hnetwork, hplace]
      have hskip : c.write_pipeline.find? (fun batch => decide (last < batch.batch_id)) = none :=
        List.find?_eq_none.mpr fun b hb => by simpa using hlast b hb
      rw [if_neg (by simp [hcan]), getNextMutationBatch_eq h, hqueue, List.find?_append, hskip,
        Option.none_or]
      cases rest with
      | nil =>
        rw [← hqueue, take_queue hqueue hplaces (Or.inr rfl)]
        by_cases hempty : c.write_pipeline = []
        · rw [hempty] at hw ⊢
          exact ⟨c.write_stream.MarkIdle, by simp, WriteStream.markIdle_attached hw⟩
        · exact ⟨c.write_stream, by simp [hempty], hw, .refl _⟩
      | cons batch rest =>
        have hfirst := hrest batch List.mem_cons_self
        obtain ⟨w, hadd, hattached, hext⟩ := addToWritePipeline_ok hnetwork hplace hw batch
        have hsorted := queue_ascending h
        rw [hqueue] at hsorted
        have hqueue' : c.queue = c.write_pipeline ++ [batch] ++ rest := by
          rw [hqueue, List.append_assoc, List.singleton_append]
        have hlength : (c.write_pipeline ++ [batch]).length = c.write_pipeline.length + 1 :=
          List.length_append
        have hlast' : ∀ b ∈ c.write_pipeline ++ [batch], b.batch_id ≤ batch.batch_id := by
          intro b hb
          rcases List.mem_append.mp hb with hb | hb
          · exact (lt_of_le_of_lt (hlast b hb) hfirst).le
          · exact le_of_eq (congrArg MutationBatch.batch_id (List.mem_singleton.mp hb))
        obtain ⟨v, hloop, hattached', hext'⟩ := ih
          (c := { c with write_pipeline := c.write_pipeline ++ [batch], write_stream := w })
          ⟨h.store, h.user, h.callbacks, h.waiting⟩ hnetwork hqueue'
          hlast' (List.pairwise_cons.mp (List.pairwise_append.mp hsorted).2.1).1
          (by rw [hlength]; exact hplace) (by rw [hlength]; omega) (by rwa [hlength])
        rw [List.find?_cons_of_pos (by simpa using hfirst), ← hqueue]
        exact ⟨v, bind_ok hadd hloop, hattached', hext.trans hext'⟩

theorem startWriteStream_ok (hshould : c.ShouldStartWriteStream = true)
    (hw : c.write_stream.Attached true c.write_pipeline.length) :
    ∃ w, c.StartWriteStream = .ok { c with write_stream := w } ∧
      w.Attached true c.write_pipeline.length ∧ c.write_stream.Extends w ∧ w.IsStarted = true := by
  have hcond := hshould
  simp only [ShouldStartWriteStream, Bool.and_eq_true, Bool.not_eq_true',
    List.isEmpty_eq_false_iff] at hcond
  obtain ⟨⟨-, hnot⟩, hsome⟩ := hcond
  obtain ⟨w, hok, hrest⟩ :=
    WriteStream.start_ok hw hnot fun hzero => hsome (List.length_eq_zero_iff.mp hzero)
  refine ⟨w, ?_, hrest⟩
  unfold StartWriteStream
  simp only [hshould, Bool.not_true, Bool.false_eq_true, if_false]
  exact bind_ok hok rfl

/-- A stream that is not needed is left, one that is needed is started. -/
theorem startIfNeeded_ok (hw : c.write_stream.Attached c.is_network_enabled c.write_pipeline.length) :
    ∃ w, (if c.ShouldStartWriteStream = true then c.StartWriteStream else pure c) =
        .ok { c with write_stream := w } ∧
      w.Attached c.is_network_enabled c.write_pipeline.length ∧ c.write_stream.Extends w ∧
      (c.write_pipeline.length ≠ 0 → w.IsStarted = true) := by
  split
  · rename_i hshould
    have hnetwork : c.is_network_enabled = true := by
      simp only [ShouldStartWriteStream, Bool.and_eq_true] at hshould
      exact hshould.1.1
    obtain ⟨w, hok, hattached, hext, hstarted⟩ := startWriteStream_ok hshould (hnetwork ▸ hw)
    exact ⟨w, hok, hnetwork.symm ▸ hattached, hext, fun _ => hstarted⟩
  · rename_i hnot
    refine ⟨c.write_stream, rfl, hw, .refl _, fun hn => ?_⟩
    by_contra hstopped
    have hnetwork : c.is_network_enabled = true := by
      by_contra hoff
      exact hn (hw.offline (by simpa using hoff)).2
    refine hnot ?_
    simp only [ShouldStartWriteStream, CanUseNetwork, hnetwork, Bool.true_and, Bool.and_eq_true,
      Bool.not_eq_true', List.isEmpty_eq_false_iff]
    exact ⟨by simpa using hstopped, fun hempty => hn (List.length_eq_zero_iff.mpr hempty)⟩

/-- The batches after the pipeline are those from the last ID that was retrieved on. -/
theorem last_batch_id_retrieved (h : c.Stored) (hqueue : c.queue = c.write_pipeline ++ rest) :
    (∀ b ∈ c.write_pipeline,
      b.batch_id ≤ (c.write_pipeline.getLast?.map MutationBatch.batch_id).getD kBatchIdUnknown) ∧
    ∀ b ∈ rest,
      (c.write_pipeline.getLast?.map MutationBatch.batch_id).getD kBatchIdUnknown < b.batch_id := by
  have hsorted := queue_ascending h
  rw [hqueue] at hsorted
  rcases List.eq_nil_or_concat c.write_pipeline with hempty | ⟨sent, last, hpipeline⟩
  · rw [hempty] at hqueue ⊢
    refine ⟨by simp, fun b hb => ?_⟩
    have hpositive := queue_positive h (hqueue ▸ List.mem_append_right [] hb)
    exact lt_trans (by decide) hpositive
  · rw [hpipeline] at hsorted ⊢
    obtain ⟨hsent, -, hafter⟩ := List.pairwise_append.mp hsorted
    rw [List.concat_eq_append] at hsent ⊢
    rw [List.getLast?_concat, Option.map_some, Option.getD_some]
    refine ⟨fun b hb => ?_, fun b hb => hafter last (by simp) b hb⟩
    rcases List.mem_append.mp hb with hb | hb
    · exact ((List.pairwise_append.mp hsent).2.2 b hb last List.mem_cons_self).le
    · exact le_of_eq (congrArg MutationBatch.batch_id (List.mem_singleton.mp hb))

/-- `after` is `c` with the pipeline filled, and with the stream started where it is needed. -/
structure Filled (c after : FirestoreClient) : Prop where
  same : after = { c with write_pipeline := c.due, write_stream := after.write_stream }
  attached : after.write_stream.Attached c.is_network_enabled c.due.length
  extended : c.write_stream.Extends after.write_stream
  started : c.due.length ≠ 0 → after.write_stream.IsStarted = true

/-- After filling, the pipeline has the first batches of the queue. -/
theorem fillWritePipeline_ok (h : c.Stored) (hbegins : c.write_pipeline <+: c.queue)
    (hplaces : c.write_pipeline.length ≤ kMaxPendingWrites)
    (hw : c.write_stream.Attached c.is_network_enabled c.write_pipeline.length) :
    ∃ after, c.FillWritePipeline = .ok after ∧ c.Filled after := by
  have hloop : ∃ w, FillWritePipeline.loop kMaxPendingWrites
      ((c.write_pipeline.getLast?.map MutationBatch.batch_id).getD kBatchIdUnknown) c =
        .ok { c with write_pipeline := c.due, write_stream := w } ∧
      w.Attached c.is_network_enabled c.due.length ∧ c.write_stream.Extends w := by
    by_cases hnetwork : c.is_network_enabled = true
    · obtain ⟨rest, hqueue⟩ := hbegins
      obtain ⟨hlast, hrest⟩ := last_batch_id_retrieved h hqueue.symm
      rw [due, if_pos hnetwork]
      obtain ⟨w, hok, hattached, hext⟩ := fillLoop_ok kMaxPendingWrites h hnetwork hqueue.symm hlast
        hrest hplaces (Nat.le_add_left _ _) (hnetwork ▸ hw)
      exact ⟨w, hok, hnetwork.symm ▸ hattached, hext⟩
    · have hempty : c.write_pipeline = [] :=
        List.length_eq_zero_iff.mp (hw.offline (by simpa using hnetwork)).2
      rw [due, if_neg hnetwork]
      rw [hempty] at hw
      refine ⟨c.write_stream, ?_, hw, .refl _⟩
      rw [kMaxPendingWrites, FillWritePipeline.loop,
        if_pos (by simp [CanAddToWritePipeline, CanUseNetwork, hnetwork])]
      rw [← hempty]
  obtain ⟨w, hok, hattached, hext⟩ := hloop
  obtain ⟨v, hstart, hattached', hext', hstarted⟩ :=
    startIfNeeded_ok (c := { c with write_pipeline := c.due, write_stream := w }) hattached
  exact ⟨_, bind_ok hok hstart, rfl, hattached', hext.trans hext', hstarted⟩

theorem due_begins : c.due <+: c.queue := by
  unfold due
  split
  · exact List.take_prefix _ _
  · exact List.nil_prefix

theorem due_length : c.due.length ≤ kMaxPendingWrites := by
  unfold due
  split
  · exact List.length_take_le _ _
  · exact Nat.zero_le _

/-- The first batch of the pipeline is the first one of the queue. -/
theorem due_cons (h : c.due = batch :: rest) : c.is_network_enabled = true ∧
    ∃ batches, c.queue = batch :: batches ∧ rest <+: batches ∧ rest.length ≤ kMaxPendingWrites := by
  have hbegins : c.due <+: c.queue := due_begins
  have hlength : c.due.length ≤ kMaxPendingWrites := due_length
  have hnetwork : c.is_network_enabled = true := by
    by_contra hoff
    rw [due, if_neg hoff] at h
    contradiction
  rw [h] at hbegins hlength
  obtain ⟨batches, hqueue⟩ := hbegins
  exact ⟨hnetwork, rest ++ batches, hqueue.symm, List.prefix_append _ _,
    (Nat.le_succ _).trans hlength⟩

theorem Filled.due {after : FirestoreClient} (hf : c.Filled after) : after.due = c.due := by
  rw [hf.same]
  rfl

theorem Filled.stored {after : FirestoreClient} (hf : c.Filled after) (h : c.Stored) :
    after.Stored := by
  rw [hf.same]
  exact ⟨h.store, h.user, h.callbacks, h.waiting⟩

/-- A client is between its tasks again when its pipeline is filled. -/
theorem Filled.sound {after : FirestoreClient} (hf : c.Filled after) (h : c.Stored)
    (hhandshake : c.write_stream.handshake_complete = true → c.write_stream.state = .Open) :
    after.Sound := by
  have hpipeline : after.write_pipeline = c.due := by rw [hf.same]
  have hnetwork : after.is_network_enabled = c.is_network_enabled := by rw [hf.same]
  refine ⟨hf.stored h, hpipeline.trans hf.due.symm, ?_⟩
  rw [hpipeline, hnetwork]
  refine ⟨hf.attached, hf.started, fun hcomplete => hf.extended.opened.mpr (hhandshake ?_)⟩
  rw [← hf.extended.handshake]
  exact hcomplete

end Fill

/-- The batches of a user that are not settled, each with the handler that waits for it. -/
def pending (c : FirestoreClient) (user : AuthUser) : List (MutationBatch × Option StatusCallback) :=
  (c.local_store.db.of user).map fun batch =>
    (batch, find (LevelDbMutationKey.Key user batch.batch_id) c.mutation_callbacks)

section Settle

variable {c : FirestoreClient} {batch : MutationBatch} {batches : List MutationBatch} {id : BatchId}
  {status : Status} {s : LocalStore} {r : MutationBatchResult}

theorem notifyUser_eq : c.NotifyUser id status = { c with
    called := c.called ++ ((find (LevelDbMutationKey.Key c.current_user id)
      c.mutation_callbacks).map fun callback => (callback, status)).toList
    mutation_callbacks := c.mutation_callbacks.filter fun entry =>
      decide (entry.1 ≠ LevelDbMutationKey.Key c.current_user id) } := by
  unfold NotifyUser
  cases hfind : find (LevelDbMutationKey.Key c.current_user id) c.mutation_callbacks with
  | none =>
    have hall : c.mutation_callbacks.filter (fun entry =>
        decide (entry.1 ≠ LevelDbMutationKey.Key c.current_user id)) = c.mutation_callbacks := by
      refine List.filter_eq_self.mpr fun entry hentry => decide_eq_true fun heq => ?_
      exact find_eq_none.mp hfind (List.mem_map.mpr ⟨entry, hentry, heq⟩)
    simp only [hall, hfind, Option.map_none, Option.toList_none, List.append_nil]
  | some callback => simp only [hfind, Option.map_some, Option.toList_some]

/-- The client with the outcome of a batch, `s` being the local store without it. -/
def settled (c : FirestoreClient) (s : LocalStore) (id : BatchId) (status : Status) :
    FirestoreClient := { c.NotifyUser id status with local_store := s }

@[simp] theorem settled_write_pipeline : (c.settled s id status).write_pipeline = c.write_pipeline := by
  rw [settled, notifyUser_eq]

@[simp] theorem settled_write_stream : (c.settled s id status).write_stream = c.write_stream := by
  rw [settled, notifyUser_eq]

@[simp] theorem settled_is_network_enabled :
    (c.settled s id status).is_network_enabled = c.is_network_enabled := by
  rw [settled, notifyUser_eq]

@[simp] theorem settled_queue : (c.settled s id status).queue = s.db.of c.current_user := by
  rw [settled, notifyUser_eq]
  rfl

/-- The local store `after` has a batch of the user no more, and its documents may be newer. -/
structure Dequeued (before : LocalStore) (user : AuthUser) (batch : MutationBatch)
    (after : LocalStore) : Prop where
  mutation_queue : after.mutation_queue = before.mutation_queue
  tables : after.db.toMutationTables = before.db.toMutationTables.Delete user batch
  supersedes : ∀ key, Supersedes (after.db.Get key) (before.db.Get key)

theorem Dequeued.sound (hs : Dequeued c.local_store c.current_user batch s) (h : c.Stored)
    (hbatch : batch ∈ c.queue) : s.Sound := by
  have hmem : batch ∈ c.local_store.db.of c.local_store.mutation_queue.user_id := h.user ▸ hbatch
  have hconsistent := LevelDbMutationQueue.consistent_delete h.store.consistent hmem
  rw [h.user] at hconsistent
  refine ⟨?_, ?_, ?_, ?_⟩
  · rw [hs.tables]
    exact hconsistent
  · rw [hs.tables]
    exact LevelDbMutationQueue.positive_delete h.store.positive
  · rw [hs.tables, hs.mutation_queue]
    exact LevelDbMutationQueue.below_delete h.store.below
  · rw [hs.mutation_queue]
    exact h.store.next

theorem Dequeued.of (hs : Dequeued c.local_store c.current_user batch s) (h : c.Stored)
    (user : AuthUser) :
    s.db.of user = if user = c.current_user then
      (c.local_store.db.of user).filter fun b => decide (b.batch_id ≠ batch.batch_id)
    else c.local_store.db.of user := by
  rw [hs.tables]
  exact LevelDbMutationQueue.of_delete (q := ⟨c.current_user, 1⟩) h.store.consistent user

theorem Dequeued.queue (hs : Dequeued c.local_store c.current_user batch s) (h : c.Stored)
    (hqueue : c.queue = batch :: batches) : s.db.of c.current_user = batches := by
  rw [hs.tables]
  exact LevelDbMutationQueue.of_delete_head (q := ⟨c.current_user, 1⟩) h.store.consistent hqueue

/-- The handlers of the other batches keep waiting for them. -/
theorem settled_stored (status : Status) (hs : Dequeued c.local_store c.current_user batch s)
    (h : c.Stored) (hbatch : batch ∈ c.queue) : (c.settled s batch.batch_id status).Stored := by
  rw [settled, notifyUser_eq]
  refine ⟨hs.sound h hbatch, ?_, h.callbacks.filter _, fun key hkey => ?_⟩
  · show s.mutation_queue.user_id = c.current_user
    rw [hs.mutation_queue, h.user]
  · obtain ⟨hkey, hne⟩ := (mem_keys_filter fun key =>
      decide (key ≠ LevelDbMutationKey.Key c.current_user batch.batch_id)).mp hkey
    obtain ⟨b, hb, hid⟩ := h.waiting key hkey
    refine ⟨b, ?_, hid⟩
    show b ∈ s.db.of key.user_id
    rw [hs.of h]
    split
    · rename_i huser
      refine List.mem_filter.mpr ⟨hb, decide_eq_true fun heq => of_decide_eq_true hne ?_⟩
      exact LevelDbMutationKey.eq_key.mpr ⟨huser, hid.symm.trans heq⟩
    · exact hb

theorem settled_pending (hs : Dequeued c.local_store c.current_user batch s) (h : c.Stored)
    (hqueue : c.queue = batch :: batches) :
    (c.settled s batch.batch_id status).pending =
      Function.update c.pending c.current_user (c.pending c.current_user).tail := by
  have hsorted := queue_ascending h
  rw [hqueue] at hsorted
  have hfirst := (List.pairwise_cons.mp hsorted).1
  have hfind : ∀ key, key ≠ LevelDbMutationKey.Key c.current_user batch.batch_id →
      find key (c.settled s batch.batch_id status).mutation_callbacks =
        find key c.mutation_callbacks := by
    intro key hkey
    rw [settled, notifyUser_eq]
    exact (find_filter fun key =>
      decide (key ≠ LevelDbMutationKey.Key c.current_user batch.batch_id)).trans
        (if_pos (decide_eq_true hkey))
  funext user
  by_cases huser : user = c.current_user
  · subst huser
    rw [Function.update_self]
    show (s.db.of c.current_user).map _ = ((c.queue).map _).tail
    rw [hs.queue h hqueue, hqueue, List.map_cons, List.tail_cons]
    refine List.map_congr_left fun b hb => Prod.ext rfl (hfind _ fun heq => ?_)
    exact absurd (LevelDbMutationKey.eq_key.mp heq).2 (hfirst b hb).ne'
  · rw [Function.update_of_ne huser]
    show (s.db.of user).map _ = (c.local_store.db.of user).map _
    rw [hs.of h, if_neg huser]
    refine List.map_congr_left fun b _ => Prod.ext rfl (hfind _ fun heq => ?_)
    exact huser (LevelDbMutationKey.eq_key.mp heq).1

theorem handleSuccessfulWrite_ok (h : c.Stored) (hbatch : r.batch ∈ c.queue) :
    ∃ changes s, c.local_store.AcknowledgeBatch r = .ok (changes, s) ∧
      c.HandleSuccessfulWrite r = .ok (c.settled s r.batch.batch_id .kErrorOk) ∧
      Dequeued c.local_store c.current_user r.batch s := by
  have hmem : r.batch ∈ c.local_store.db.of c.local_store.mutation_queue.user_id := h.user ▸ hbatch
  obtain ⟨changes, s, hok, hmq, htables, -, hget, -⟩ :=
    acknowledgeBatch_ok h.store.consistent hmem
  refine ⟨changes, s, hok, ?_, hmq, h.user ▸ htables, fun key => ?_⟩
  · unfold HandleSuccessfulWrite settled
    rw [notifyUser_eq]
    exact bind_ok hok rfl
  · rw [hget]
    split
    · rename_i hkey
      exact supersedes_acknowledged key hkey
    · exact .refl _

theorem handleRejectedWrite_ok (status : Status) (h : c.Stored) (hbatch : batch ∈ c.queue) :
    ∃ s, c.HandleRejectedWrite batch.batch_id status = .ok (c.settled s batch.batch_id status) ∧
      Dequeued c.local_store c.current_user batch s := by
  have hmem : batch ∈ c.local_store.db.of c.local_store.mutation_queue.user_id := h.user ▸ hbatch
  refine ⟨c.local_store.dequeued batch, ?_, rfl, ?_, fun key => .refl _⟩
  · unfold HandleRejectedWrite settled
    rw [notifyUser_eq]
    exact bind_ok (rejectBatch_ok h.store.consistent hmem) (congrArg Except.ok notifyUser_eq)
  · rw [LocalStore.dequeued, h.user]

end Settle

end FirestoreClient

end VoisinMalin
