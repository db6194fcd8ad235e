import VoisinMalin.Firestore.WritePipeline
import VoisinMalin.Library.Mailboxes
import VoisinMalin.Library.Run

/-! The tasks of a client, and what each does for those who wait for a write: it leaves what is pending,
posts a batch or settles the first one of the user. Every task that may come is taken, and the client
is sound again after it. -/

namespace VoisinMalin

open SortedMap EventMachine

namespace FirestoreClient

/-- What comes to the queue of the tasks. -/
inductive Event where
  | WriteMutations (mutations : List Mutation) (callback : StatusCallback)
  | ApplyRemoteEvent (document_updates : DocumentMap) (snapshot_version : SnapshotVersion)
  | HandleCredentialChange (user : AuthUser)
  | EnableNetwork
  | DisableNetwork
  | OnConnectivityChange
  | OnToken (initial_close_count : ℕ) (maybe_token : Status)
  | OnStreamRead (message : Response)
  | OnStreamFinish (status : Status)
  | BackoffElapsed
  | IdleTimeout
  | Restart (user : AuthUser) -- the app ends between two tasks and starts again

def handle (c : FirestoreClient) : Event → Except String FirestoreClient
  | .WriteMutations mutations callback => c.WriteMutations mutations callback
  | .ApplyRemoteEvent document_updates snapshot_version =>
    c.ApplyRemoteEvent document_updates snapshot_version
  | .HandleCredentialChange user => c.HandleCredentialChange user
  | .EnableNetwork => c.EnableNetwork
  | .DisableNetwork => c.DisableNetwork
  | .OnConnectivityChange => c.OnConnectivityChange
  | .OnToken initial_close_count maybe_token => c.OnToken initial_close_count maybe_token
  | .OnStreamRead message => c.OnStreamRead message
  | .OnStreamFinish status => c.OnStreamFinish status
  | .BackoffElapsed => do return { c with write_stream := ← c.write_stream.BackoffElapsed }
  | .IdleTimeout => c.Stop
  | .Restart user => Initialize c.local_store.db user c.called

/-- A task that fails an assertion is refused. -/
def step (c : FirestoreClient) (e : Event) : Option FirestoreClient := (c.handle e).toOption

/-- What may come in a state: only what was asked for comes back, the backend answers each request in
turn, with a result for each mutation, and does not end a call well while writes are under way. -/
def Occurs (c : FirestoreClient) : Event → Prop
  | .ApplyRemoteEvent document_updates snapshot_version =>
    FromBackend snapshot_version document_updates ∧ (snapshot_version ≠ .None →
      ¬SnapshotVersion.Less snapshot_version c.local_store.db.last_remote_snapshot_version)
  | .OnToken initial_close_count _ => initial_close_count ∈ c.write_stream.token_requests
  | .OnStreamRead (.read _ mutation_results) => (∃ k, c.write_stream.grpc_stream = some (k + 1)) ∧
    ∀ batch ∈ c.write_pipeline.head?, c.write_stream.handshake_complete = true →
      mutation_results.length = batch.mutations.length
  | .OnStreamRead (.unreadable status) =>
    c.write_stream.grpc_stream.isSome = true ∧ status ≠ .kErrorOk
  | .OnStreamFinish status => c.write_stream.grpc_stream.isSome = true ∧
    (status = .kErrorOk → c.write_pipeline = [])
  | .BackoffElapsed => c.write_stream.state = .Backoff
  | .IdleTimeout => c.write_stream.idleness_timer = true
  | _ => True

instance (c : FirestoreClient) : (e : Event) → Decidable (c.Occurs e)
  | .ApplyRemoteEvent document_updates snapshot_version =>
    inferInstanceAs (Decidable (FromBackend snapshot_version document_updates ∧
      (snapshot_version ≠ .None →
        ¬SnapshotVersion.Less snapshot_version c.local_store.db.last_remote_snapshot_version)))
  | .OnToken initial_close_count _ =>
    inferInstanceAs (Decidable (initial_close_count ∈ c.write_stream.token_requests))
  | .OnStreamRead (.read _ mutation_results) =>
    have : Decidable (∃ k, c.write_stream.grpc_stream = some (k + 1)) :=
      decidable_of_iff (∃ n ∈ c.write_stream.grpc_stream, 0 < n)
        ⟨fun ⟨n, hn, hpos⟩ => ⟨n - 1, by rw [hn, Nat.sub_add_cancel hpos]⟩,
          fun ⟨k, hk⟩ => ⟨k + 1, hk, k.succ_pos⟩⟩
    inferInstanceAs (Decidable (_ ∧ ∀ batch ∈ c.write_pipeline.head?,
      c.write_stream.handshake_complete = true →
        mutation_results.length = batch.mutations.length))
  | .OnStreamRead (.unreadable status) =>
    inferInstanceAs (Decidable (c.write_stream.grpc_stream.isSome = true ∧ status ≠ .kErrorOk))
  | .OnStreamFinish status =>
    have : Decidable (c.write_pipeline = []) := decidable_of_iff _ List.isEmpty_iff
    inferInstanceAs (Decidable (c.write_stream.grpc_stream.isSome = true ∧
      (status = .kErrorOk → c.write_pipeline = [])))
  | .BackoffElapsed => inferInstanceAs (Decidable (c.write_stream.state = .Backoff))
  | .IdleTimeout => inferInstanceAs (Decidable (c.write_stream.idleness_timer = true))
  | .WriteMutations _ _ => .isTrue trivial
  | .HandleCredentialChange _ => .isTrue trivial
  | .EnableNetwork => .isTrue trivial
  | .DisableNetwork => .isTrue trivial
  | .OnConnectivityChange => .isTrue trivial
  | .Restart _ => .isTrue trivial

/-- Who is signed in, whether the network is enabled, what a client owes to those who wait for it, what
it has told them, and what it has cached. -/
structure Ledger where
  user : AuthUser
  network : Bool
  pending : AuthUser → List (MutationBatch × Option StatusCallback)
  called : List (StatusCallback × Status)
  cached : DocID → MutableDocument

def ledger (c : FirestoreClient) : Ledger :=
  ⟨c.current_user, c.is_network_enabled, c.pending, c.called, c.local_store.db.Get⟩

abbrev Action := Outbox.Action AuthUser MutationBatch StatusCallback Status

/-- An outbox with the same items. -/
structure Ledger.Mirrors (l : Ledger) (o : Outbox AuthUser MutationBatch StatusCallback Status) :
    Prop where
  pending : o.pending = l.pending
  told : o.told = l.called

/-- A ledger that becomes another: `as` is done for those who wait, and no document gets older but for
those to which access is lost. -/
structure Ledger.Goes (l : Ledger) (as : List Action) (lost : DocID → Prop) (l' : Ledger) : Prop where
  does : ∀ o, l.Mirrors o → ∃ o', run Outbox.step o as = some o' ∧ l'.Mirrors o'
  supersedes : ∀ key, ¬lost key → Supersedes (l'.cached key) (l.cached key)
  user : l'.user = l.user
  network : l'.network = l.network

theorem Ledger.Goes.refl (l : Ledger) (lost : DocID → Prop) : l.Goes [] lost l :=
  ⟨fun o ho => ⟨o, rfl, ho⟩, fun _ _ => .refl _, rfl, rfl⟩

section Settled

variable {c : FirestoreClient} {batch : MutationBatch} {batches : List MutationBatch}
  {status : Status} {s : LocalStore} {lost : DocID → Prop}

/-- The outcome of a batch settles the first item of the user. -/
theorem settled_goes (lost : DocID → Prop)
    (hs : Dequeued c.local_store c.current_user batch s) (h : c.Stored)
    (hqueue : c.queue = batch :: batches) : c.ledger.Goes [.settle c.current_user status] lost
      (c.settled s batch.batch_id status).ledger := by
  have hsame : (c.settled s batch.batch_id status).current_user = c.current_user := by
    rw [settled, notifyUser_eq]
  refine ⟨fun o ho => ?_, fun key _ => hs.supersedes key, hsame,
    settled_is_network_enabled (s := s)⟩
  have hpending : o.pending c.current_user = (batch,
      find (LevelDbMutationKey.Key c.current_user batch.batch_id) c.mutation_callbacks) ::
        (c.pending c.current_user).tail := by
    rw [ho.pending]
    show (c.queue).map _ = _ :: ((c.queue).map _).tail
    rw [hqueue]
    rfl
  refine ⟨_, run_cons.mpr ⟨_, by rw [Outbox.step, hpending], rfl⟩, ?_, ?_⟩
  · show Function.update o.pending _ _ = (c.settled s batch.batch_id status).pending
    rw [settled_pending hs h hqueue, ho.pending]
    rfl
  · show Outbox.told _ = (c.settled s batch.batch_id status).called
    rw [settled, notifyUser_eq]
    have htold := ho.told
    unfold Outbox.told at htold ⊢
    rw [List.filterMap_append, htold]
    cases find (LevelDbMutationKey.Key c.current_user batch.batch_id) c.mutation_callbacks <;> rfl

end Settled

section Closing

variable {c : FirestoreClient} {w : WriteStream} {network : Bool} {n : ℕ} {status : Status}
  {batch : MutationBatch} {batches rest : List MutationBatch} {lost : DocID → Prop}

/-- The stream while its end is told to the remote store. -/
def closed (w : WriteStream) (status : Status) : WriteStream :=
  { w with
    idleness_timer := false
    close_count := w.close_count + 1
    grpc_stream := none
    state := if status.ok then .Initial else .Error }

theorem closed_attached (hrequested : ∀ k ∈ w.token_requests, k ≤ w.close_count)
    (hoffline : network = false → n = 0) : (closed w status).Attached network n := by
  have hstate : (closed w status).state ≠ .Starting ∧ (closed w status).state ≠ .Open ∧
      (closed w status).IsStarted = false := by
    cases hok : status.ok <;> simp [closed, hok, WriteStream.IsStarted, WriteStream.IsOpen]
  obtain ⟨hstarting, hopen, hstopped⟩ := hstate
  have hcount : w.token_requests.count (w.close_count + 1) = 0 :=
    List.count_eq_zero.mpr fun hmem => absurd (hrequested _ hmem) (Nat.not_succ_le_self _)
  refine ⟨?_, fun k hk => (hrequested k hk).trans (Nat.le_succ _), ?_, fun hs => ?_, fun hi => ?_,
    fun hoff => ⟨hstopped, hoffline hoff⟩⟩
  · rw [if_neg hstarting]
    exact hcount
  · rw [if_neg hopen]
    rfl
  · rw [hstopped] at hs
    contradiction
  · exact absurd hi Bool.false_ne_true

/-- After the handshake is forgotten a stream that is not open stands to its writes as before. -/
theorem attached_forget (h : w.Attached network n) (hopen : w.state ≠ .Open) :
    ({ w with handshake_complete := false } : WriteStream).Attached network n := by
  refine ⟨h.tokens, h.requested, ?_, fun hs hn => absurd (h.needed hs hn).1 hopen, h.idle, h.offline⟩
  rw [h.calls, if_neg hopen]
  exact (if_neg hopen).symm

/-- A stream that is stopped on purpose serves nothing, and nothing is asked of it. -/
theorem stop_ok (hw : c.write_stream.Serves network n)
    (hunneeded : c.is_network_enabled = false ∨ c.write_pipeline = []) :
    ∃ w, c.Stop = .ok { c with write_stream := w } ∧ (∀ network', w.Attached network' 0) ∧
      w.IsStarted = false ∧ w.handshake_complete = false := by
  have hshould : ∀ v : WriteStream,
      ({ c with write_stream := v } : FirestoreClient).ShouldStartWriteStream = false := by
    intro v
    rcases hunneeded with hoff | hempty
    · simp [ShouldStartWriteStream, CanUseNetwork, hoff]
    · simp [ShouldStartWriteStream, hempty]
  unfold Stop Close
  by_cases hstarted : c.write_stream.IsStarted = true
  · refine ⟨{ closed c.write_stream .kErrorOk with handshake_complete := false }, ?_,
      fun network' => attached_forget (closed_attached hw.requested fun _ => rfl) ?_, rfl, rfl⟩
    · simp only [hstarted, Bool.not_true, Bool.and_false, Bool.false_eq_true, if_false]
      refine bind_ok (a := { c with write_stream := closed c.write_stream .kErrorOk }) ?_ rfl
      unfold OnWriteStreamClose
      have hnone := hshould (closed c.write_stream .kErrorOk)
      have hok : Status.kErrorOk.ok = true := rfl
      simp only [closed, hok, if_true] at hnone ⊢
      simp only [hnone, Bool.and_false, Bool.false_eq_true, if_false, Bool.not_true,
        Bool.false_and]
      exact if_neg (by simp [hnone])
    · simp [closed, Status.ok]
  · have hstopped : c.write_stream.IsStarted = false := by simpa using hstarted
    have hopen : c.write_stream.state ≠ .Open := fun hopen =>
      hstarted (WriteStream.isStarted_of_open hopen)
    refine ⟨c.write_stream, ?_, fun network' => ⟨hw.tokens, hw.requested, ?_,
      fun hs => absurd hs hstarted, fun hi => absurd (hw.idle hi).1 hopen,
      fun _ => ⟨hstopped, rfl⟩⟩, hstopped, ?_⟩
    · simp only [hstopped]
      rfl
    · rw [hw.calls, if_neg hopen, if_neg hopen]
    · by_contra hcomplete
      exact hopen (hw.handshake (by simpa using hcomplete))

theorem isPermanentError_ok (h : status ≠ .kErrorOk) :
    ∃ permanent, Datastore.IsPermanentError status = .ok permanent := by
  cases status <;> first | exact absurd rfl h | exact ⟨_, rfl⟩

theorem isPermanentWriteError_ok (h : status ≠ .kErrorOk) :
    ∃ permanent, Datastore.IsPermanentWriteError status = .ok permanent := by
  obtain ⟨permanent, hok⟩ := isPermanentError_ok h
  exact ⟨_, bind_ok hok rfl⟩

/-- What a call that ends with an error does for those who wait: a permanent error after the handshake
is the outcome of the first write. -/
def rejects (c : FirestoreClient) (status : Status) : List Action :=
  match Datastore.IsPermanentWriteError status with
  | .ok true =>
    if c.write_stream.handshake_complete && !c.write_pipeline.isEmpty then
      [.settle c.current_user status]
    else []
  | _ => []

/-- A client while the end of a call is handled. -/
structure Ended (c : FirestoreClient) : Prop extends Stored c where
  pipeline : c.write_pipeline = c.due
  attached : c.write_stream.Attached c.is_network_enabled c.write_pipeline.length
  stopped : c.write_stream.state ≠ .Open

theorem Filled.ledger {after : FirestoreClient} (hf : c.Filled after) :
    after.ledger = c.ledger := by
  rw [hf.same]
  rfl

theorem Filled.ended {after : FirestoreClient} (hf : c.Filled after) (h : c.Stored)
    (hopen : c.write_stream.state ≠ .Open) : after.Ended := by
  have hpipeline : after.write_pipeline = c.due := by rw [hf.same]
  have hnetwork : after.is_network_enabled = c.is_network_enabled := by rw [hf.same]
  refine ⟨hf.stored h, hpipeline.trans hf.due.symm, ?_, fun hstate => hopen ?_⟩
  · rw [hpipeline, hnetwork]
    exact hf.attached
  · exact hf.extended.opened.mp hstate

theorem status_ok_iff : status.ok = true ↔ status = .kErrorOk := beq_iff_eq

theorem handleWriteError_ok (lost : DocID → Prop) (h : c.Ended)
    (hstopped : c.write_stream.IsStarted = false)
    (hstatus : status ≠ .kErrorOk) (hsome : c.write_pipeline ≠ [])
    (hhandshake : c.write_stream.handshake_complete = true) :
    ∃ after, c.HandleWriteError status = .ok after ∧ after.Ended ∧
      c.ledger.Goes (c.rejects status) lost after.ledger := by
  obtain ⟨permanent, hpermanent⟩ := isPermanentWriteError_ok hstatus
  have hok : status.ok = false := by
    rw [← Bool.not_eq_true, status_ok_iff]
    exact hstatus
  unfold HandleWriteError rejects
  simp only [hok, Bool.false_eq_true, if_false, hpermanent]
  cases permanent with
  | false => exact ⟨c, rfl, h, .refl _ _⟩
  | true =>
    obtain ⟨batch, rest, hpipeline⟩ := List.exists_cons_of_ne_nil hsome
    obtain ⟨-, batches, hqueue, hbegins, hplaces⟩ := due_cons (h.pipeline ▸ hpipeline)
    obtain ⟨hinhibit, hattached⟩ := WriteStream.inhibitBackoff_ok h.attached hstopped
    have hstored : ({ c with
        write_pipeline := rest
        write_stream := { c.write_stream with state := .Initial } } : FirestoreClient).Stored :=
      ⟨h.store, h.user, h.callbacks, h.waiting⟩
    have hmem : batch ∈ c.queue := hqueue ▸ List.mem_cons_self
    obtain ⟨s, hrejected, hs⟩ := handleRejectedWrite_ok status hstored hmem
    have hnetwork := (due_cons (h.pipeline ▸ hpipeline)).1
    obtain ⟨after, hfill, hfilled⟩ := fillWritePipeline_ok
      (settled_stored status hs hstored hmem)
      (by rw [settled_queue, settled_write_pipeline, hs.queue hstored hqueue]; exact hbegins)
      (by rw [settled_write_pipeline]; exact hplaces)
      (by rw [settled_write_stream, settled_is_network_enabled, hnetwork]; exact hattached _)
    refine ⟨after, ?_, hfilled.ended (settled_stored status hs hstored hmem) ?_, ?_⟩
    · simp only [hpipeline]
      exact bind_ok rfl ((if_neg (by simp)).trans (bind_ok hinhibit (bind_ok hrejected hfill)))
    · rw [settled_write_stream]
      simp
    · rw [hfilled.ledger, hhandshake, hpipeline]
      exact settled_goes lost hs hstored hqueue

/-- Nothing is done for those who wait where no write was sent. -/
theorem rejects_nil (h : ¬(c.write_pipeline ≠ [] ∧ c.write_stream.handshake_complete = true)) :
    c.rejects status = [] := by
  unfold rejects
  split
  · refine if_neg fun hcond => h ?_
    simpa [and_comm] using hcond
  · rfl

theorem onWriteStreamClose_ok (lost : DocID → Prop) (h : c.Ended)
    (hstopped : c.write_stream.IsStarted = false)
    (hstatus : status ≠ .kErrorOk) :
    ∃ after, c.OnWriteStreamClose status = .ok after ∧ after.Ended ∧
      (after.write_pipeline.length ≠ 0 → after.write_stream.IsStarted = true) ∧
      c.ledger.Goes (c.rejects status) lost after.ledger := by
  have hok : status.ok = false := by
    rw [← Bool.not_eq_true, status_ok_iff]
    exact hstatus
  have hhandled : ∃ next, (if (!status.ok && !c.write_pipeline.isEmpty) = true then
        if c.write_stream.handshake_complete = true then c.HandleWriteError status
        else c.HandleHandshakeError status
      else pure c) = .ok next ∧ next.Ended ∧
      c.ledger.Goes (c.rejects status) lost next.ledger := by
    by_cases hsome : c.write_pipeline ≠ []
    · rw [if_pos (by simpa [hok] using hsome)]
      by_cases hhandshake : c.write_stream.handshake_complete = true
      · rw [if_pos hhandshake]
        exact handleWriteError_ok lost h hstopped hstatus hsome hhandshake
      · obtain ⟨permanent, hpermanent⟩ := isPermanentError_ok hstatus
        rw [if_neg hhandshake, rejects_nil fun hboth => hhandshake hboth.2]
        refine ⟨c, ?_, h, .refl _ _⟩
        unfold HandleHandshakeError
        simp only [hok, Bool.false_eq_true, if_false]
        exact bind_ok hpermanent rfl
    · rw [if_neg (by simp [not_not.mp hsome]), rejects_nil fun hboth => hsome hboth.1]
      exact ⟨c, rfl, h, .refl _ _⟩
  obtain ⟨next, hnext, hended, hgoes⟩ := hhandled
  obtain ⟨w, hstart, hattached, hext, hstarted⟩ := startIfNeeded_ok hended.attached
  refine ⟨{ next with write_stream := w }, ?_, ⟨⟨hended.store, hended.user, hended.callbacks,
    hended.waiting⟩, hended.pipeline, hattached, fun hopen => hended.stopped ?_⟩, hstarted, hgoes⟩
  · unfold OnWriteStreamClose
    simp only [hok, Bool.false_and, Bool.false_eq_true, if_false] at hnext ⊢
    split_ifs at hnext ⊢ <;> exact bind_ok hnext hstart
  · exact hext.opened.mp hopen

/-- A call that ends with an error leaves a sound client, with the stream started again where there is
something to send. -/
theorem close_ok (lost : DocID → Prop) (h : c.Stored) (hpipeline : c.write_pipeline = c.due)
    (hstarted : c.write_stream.IsStarted = true)
    (hrequested : ∀ k ∈ c.write_stream.token_requests, k ≤ c.write_stream.close_count)
    (hstatus : status ≠ .kErrorOk) :
    ∃ after, c.Close status = .ok after ∧ after.Sound ∧
      c.ledger.Goes (c.rejects status) lost after.ledger := by
  have hok : status.ok = false := by
    rw [← Bool.not_eq_true, status_ok_iff]
    exact hstatus
  have hoffline : c.is_network_enabled = false → c.write_pipeline.length = 0 := by
    intro hoff
    rw [hpipeline, due, if_neg (by simp [hoff])]
    rfl
  have hended : ({ c with write_stream := closed c.write_stream status } : FirestoreClient).Ended :=
    ⟨⟨h.store, h.user, h.callbacks, h.waiting⟩, hpipeline, closed_attached hrequested hoffline,
      by simp [closed, hok]⟩
  obtain ⟨next, hnext, hended', hneeded, hgoes⟩ := onWriteStreamClose_ok lost hended
    (by simp [closed, hok, WriteStream.IsStarted, WriteStream.IsOpen]) hstatus
  refine ⟨{ next with write_stream := { next.write_stream with handshake_complete := false } }, ?_,
    ⟨⟨hended'.store, hended'.user, hended'.callbacks, hended'.waiting⟩, hended'.pipeline,
      attached_forget hended'.attached hended'.stopped, hneeded,
      fun hcomplete => absurd hcomplete Bool.false_ne_true⟩, hgoes⟩
  unfold Close
  simp only [hok, hstarted, Bool.false_and, Bool.false_eq_true, if_false, Bool.not_true]
  refine bind_ok ?_ rfl
  rw [← hnext, closed, hok]
  rfl

end Closing

section Network

variable {c : FirestoreClient} {network : Bool} {n : ℕ} {user : AuthUser} {lost : DocID → Prop}

theorem disableNetworkInternal_ok (hoff : c.is_network_enabled = false)
    (hw : c.write_stream.Serves network n) :
    ∃ w, c.DisableNetworkInternal = .ok { c with write_pipeline := [], write_stream := w } ∧
      (∀ network', w.Attached network' 0) ∧ w.IsStarted = false ∧ w.handshake_complete = false := by
  obtain ⟨w, hstop, hrest⟩ := stop_ok hw (Or.inl hoff)
  exact ⟨w, bind_ok hstop rfl, hrest⟩

theorem disableNetwork_ok (h : c.Stored) (hw : c.write_stream.Serves network n) :
    ∃ after, c.DisableNetwork = .ok after ∧ after.Sound ∧
      after.ledger = { c.ledger with network := false } := by
  obtain ⟨w, hok, hattached, -, hhandshake⟩ :=
    disableNetworkInternal_ok (c := { c with is_network_enabled := false }) rfl hw
  refine ⟨_, hok, ⟨⟨h.store, h.user, h.callbacks, h.waiting⟩, rfl, ⟨hattached false, ?_, ?_⟩⟩, rfl⟩
  · exact fun hne => absurd rfl hne
  · intro hcomplete
    rw [hhandshake] at hcomplete
    contradiction

/-- A network that is enabled fills the pipeline. -/
theorem enableNetwork_ok (h : c.Stored) (hbegins : c.write_pipeline <+: c.queue)
    (hplaces : c.write_pipeline.length ≤ kMaxPendingWrites)
    (hw : c.write_stream.Attached true c.write_pipeline.length)
    (hhandshake : c.write_stream.handshake_complete = true → c.write_stream.state = .Open) :
    ∃ after, c.EnableNetwork = .ok after ∧ after.Sound ∧
      after.ledger = { c.ledger with network := true } := by
  have hstored : ({ c with is_network_enabled := true } : FirestoreClient).Stored :=
    ⟨h.store, h.user, h.callbacks, h.waiting⟩
  obtain ⟨after, hfill, hfilled⟩ := fillWritePipeline_ok hstored hbegins hplaces hw
  exact ⟨after, hfill, hfilled.sound hstored hhandshake, hfilled.ledger⟩

theorem restartNetwork_ok (h : c.Stored) (hw : c.write_stream.Serves network n) :
    ∃ after, c.RestartNetwork = .ok after ∧ after.Sound ∧
      after.ledger = { c.ledger with network := true } := by
  obtain ⟨w, hok, hattached, hstopped, hhandshake⟩ :=
    disableNetworkInternal_ok (c := { c with is_network_enabled := false }) rfl hw
  obtain ⟨hinhibit, hready⟩ := WriteStream.inhibitBackoff_ok (hattached true) hstopped
  obtain ⟨after, hafter, hsound, hledger⟩ := enableNetwork_ok
    (c := { c with
      is_network_enabled := false
      write_pipeline := []
      write_stream := { w with state := .Initial } })
    ⟨h.store, h.user, h.callbacks, h.waiting⟩ List.nil_prefix (Nat.zero_le _) (hready 0)
    (fun hcomplete => absurd hcomplete (by simp [hhandshake]))
  exact ⟨after, bind_ok hok (bind_ok hinhibit hafter), hsound, hledger⟩

theorem onConnectivityChange_ok (h : c.Sound) :
    ∃ after, c.OnConnectivityChange = .ok after ∧ after.Sound ∧ after.ledger = c.ledger := by
  unfold OnConnectivityChange
  split
  · rename_i hnetwork
    obtain ⟨after, hok, hsound, hledger⟩ := restartNetwork_ok h.toStored h.stream
    refine ⟨after, hok, hsound, hledger.trans ?_⟩
    rw [ledger, show c.is_network_enabled = true from hnetwork]
  · exact ⟨c, rfl, h, rfl⟩

/-- The streams are restarted for a user, unless the network is off. -/
theorem remoteCredentialChange_ok (h : c.Stored)
    (hoffline : c.is_network_enabled = false → c.write_pipeline = [])
    (hw : c.write_stream.Serves c.is_network_enabled c.write_pipeline.length) :
    ∃ after, (if c.CanUseNetwork = true then c.RestartNetwork else pure c) = .ok after ∧
      after.Sound ∧ after.ledger = c.ledger := by
  split
  · rename_i hnetwork
    obtain ⟨after, hok, hsound, hledger⟩ := restartNetwork_ok h hw
    refine ⟨after, hok, hsound, hledger.trans ?_⟩
    rw [ledger, show c.is_network_enabled = true from hnetwork]
  · rename_i hnetwork
    refine ⟨c, rfl, ⟨h, ?_, hw⟩, rfl⟩
    rw [hoffline (by simpa [CanUseNetwork] using hnetwork), due]
    exact (if_neg hnetwork).symm

/-- The writes of the old user wait for its return, those of the new one are taken up. -/
theorem handleCredentialChange_ok (h : c.Sound) (user : AuthUser) :
    ∃ after, c.HandleCredentialChange user = .ok after ∧ after.Sound ∧
      after.ledger = { c.ledger with user := user } := by
  have hoffline : c.is_network_enabled = false → c.write_pipeline = [] := by
    intro hoff
    rw [h.pipeline, due, if_neg (by simp [hoff])]
  unfold HandleCredentialChange
  by_cases huser : c.current_user = user
  · subst huser
    simp only [bne_self_eq_false, Bool.false_eq_true, if_false]
    exact remoteCredentialChange_ok h.toStored hoffline h.stream
  · simp only [bne_iff_ne.mpr huser, if_true]
    obtain ⟨changes, hchange⟩ := handleUserChange_ok h.store.consistent user
    obtain ⟨after, hafter, hsound, hledger⟩ := remoteCredentialChange_ok
      (c := { c with
        current_user := user
        local_store := { c.local_store with
          mutation_queue :=
            LevelDbMutationQueue.Start ⟨user, 1⟩ c.local_store.db.toMutationTables } })
      ⟨⟨h.store.consistent, h.store.positive, LevelDbMutationQueue.start_below,
        LevelDbMutationQueue.start_positive⟩, rfl, h.callbacks, h.waiting⟩ hoffline h.stream
    exact ⟨after, bind_ok hchange hafter, hsound, hledger⟩

end Network

section Stream

variable {c : FirestoreClient} {status : Status} {lost : DocID → Prop} {batch : MutationBatch}
  {version : SnapshotVersion} {results : List SnapshotVersion} {k : ℕ}

theorem stopUnneeded_ok (h : c.Sound) (hempty : c.write_pipeline = []) :
    ∃ after, c.Stop = .ok after ∧ after.Sound ∧ after.ledger = c.ledger := by
  obtain ⟨w, hstop, hattached, -, hhandshake⟩ := stop_ok h.stream (Or.inr hempty)
  refine ⟨_, hstop, ⟨⟨h.store, h.user, h.callbacks, h.waiting⟩, h.pipeline, ?_⟩, rfl⟩
  show w.Serves c.is_network_enabled c.write_pipeline.length
  rw [hempty]
  refine ⟨hattached _, fun hne => absurd rfl hne, fun hcomplete => ?_⟩
  rw [hhandshake] at hcomplete
  contradiction

theorem isOpen_of_calls (h : c.Sound) (hcall : c.write_stream.grpc_stream.isSome = true) :
    c.write_stream.state = .Open := by
  by_contra hopen
  rw [h.stream.calls, if_neg hopen] at hcall
  contradiction

theorem onStreamFinish_ok (h : c.Sound) (hcall : c.write_stream.grpc_stream.isSome = true)
    (hgraceful : status = .kErrorOk → c.write_pipeline = []) :
    ∃ after, c.OnStreamFinish status = .ok after ∧ after.Sound ∧
      c.ledger.Goes (c.rejects status) lost after.ledger := by
  by_cases hstatus : status = .kErrorOk
  · subst hstatus
    obtain ⟨after, hstop, hsound, hledger⟩ := stopUnneeded_ok h (hgraceful rfl)
    refine ⟨after, hstop, hsound, ?_⟩
    rw [hledger]
    exact .refl _ _
  · have hstarted := WriteStream.isStarted_of_open (isOpen_of_calls h hcall)
    exact close_ok lost h.toStored h.pipeline hstarted h.stream.requested hstatus

/-- The token that is asked for is that of the close count, while the stream is starting. -/
theorem isStarting_of_token (h : c.Sound)
    (hk : c.write_stream.close_count ∈ c.write_stream.token_requests) :
    c.write_stream.state = .Starting := by
  have hpositive := List.count_pos_iff.mpr hk
  by_contra hstate
  rw [h.stream.tokens, if_neg hstate] at hpositive
  omega

theorem noHandshake_of_starting (h : c.Sound) (hstarting : c.write_stream.state = .Starting) :
    c.write_stream.handshake_complete = false := by
  by_contra hcomplete
  have hopen := h.stream.handshake (by simpa using hcomplete)
  rw [hstarting] at hopen
  contradiction

/-- With the token the call starts, and the handshake is sent. -/
theorem resumeStart_ok (h : c.Sound) (hstarting : c.write_stream.state = .Starting) :
    ∃ w, c.OnToken c.write_stream.close_count .kErrorOk = .ok { c with write_stream := w } ∧
      w.state = .Open ∧ ({ c with write_stream := w } : FirestoreClient).Sound := by
  have hhandshake := noHandshake_of_starting h hstarting
  have hsome : c.write_pipeline.length ≠ 0 := by
    intro hzero
    have hopen := (h.stream.needed (by simp [WriteStream.IsStarted, hstarting]) hzero).1
    rw [hstarting] at hopen
    contradiction
  refine ⟨{ c.write_stream with
      state := .Open
      idleness_timer := false
      token_requests := c.write_stream.token_requests.erase c.write_stream.close_count
      grpc_stream := some 1 }, ?_, rfl,
    ⟨⟨h.store, h.user, h.callbacks, h.waiting⟩, h.pipeline,
      ⟨⟨?_, fun j hj => h.stream.requested j (List.mem_of_mem_erase hj), ?_,
        fun _ hzero => absurd hzero hsome, fun hidle => absurd hidle Bool.false_ne_true,
        fun hoff => absurd (h.stream.offline hoff).2 hsome⟩, fun _ => rfl, fun _ => rfl⟩⟩⟩
  · simp [OnToken, ResumeStartWithCredentials, hstarting, Status.ok, OnStreamStart,
      OnWriteStreamOpen, WriteStream.WriteHandshake, WriteStream.Write, WriteStream.IsOpen, hhandshake]
  · rw [if_neg (by simp)]
    refine List.count_erase_self.trans ?_
    rw [h.stream.tokens, if_pos hstarting]
  · simp [hhandshake]

/-- A token starts the call, and without it the stream backs off. -/
theorem onToken_ok (h : c.Sound) (hk : k ∈ c.write_stream.token_requests) :
    ∃ after, c.OnToken k status = .ok after ∧ after.Sound ∧
      c.ledger.Goes [] lost after.ledger := by
  have hrequested : ∀ j ∈ c.write_stream.token_requests.erase k, j ≤ c.write_stream.close_count :=
    fun j hj => h.stream.requested j (List.mem_of_mem_erase hj)
  by_cases hcount : c.write_stream.close_count = k
  · subst hcount
    have hstarting := isStarting_of_token h hk
    by_cases hstatus : status = .kErrorOk
    · obtain ⟨w, hok, -, hsound⟩ := resumeStart_ok h hstarting
      exact ⟨_, hstatus ▸ hok, hsound, .refl _ _⟩
    · obtain ⟨after, hclose, hsound, hgoes⟩ := close_ok lost
        (c := { c with write_stream := { c.write_stream with
          token_requests := c.write_stream.token_requests.erase c.write_stream.close_count } })
        ⟨h.store, h.user, h.callbacks, h.waiting⟩ h.pipeline
        (by simp [WriteStream.IsStarted, hstarting]) hrequested hstatus
      have hhandshake := noHandshake_of_starting h hstarting
      rw [rejects_nil fun hboth => by simp [hhandshake] at hboth] at hgoes
      refine ⟨after, ?_, hsound, hgoes⟩
      unfold OnToken ResumeStartWithCredentials
      rw [if_neg (not_not_intro rfl), if_neg (not_not_intro hstarting), if_pos]
      · exact hclose
      · rwa [Bool.not_eq_true', ← Bool.not_eq_true, status_ok_iff]
  · refine ⟨_, if_pos hcount, ⟨⟨h.store, h.user, h.callbacks, h.waiting⟩, h.pipeline, ?_⟩, .refl _ _⟩
    refine ⟨⟨?_, hrequested, h.stream.calls, h.stream.needed, h.stream.idle, h.stream.offline⟩,
      h.stream.started, h.stream.handshake⟩
    exact (List.count_erase_of_ne hcount).trans h.stream.tokens

/-- The answer to the handshake lets all writes of the pipeline go. -/
theorem onHandshakeRead_ok (version : SnapshotVersion)
    (results : List SnapshotVersion) (h : c.Sound) (hopen : c.write_stream.state = .Open)
    (hhandshake : c.write_stream.handshake_complete = false) :
    ∃ w, c.OnStreamRead (.read version results) = .ok { c with write_stream := w } ∧
      w.state = .Open ∧ w.handshake_complete = true ∧
      ({ c with write_stream := w } : FirestoreClient).Sound := by
  have hstarted := WriteStream.isStarted_of_open hopen
  have hcalls := h.stream.calls
  rw [if_pos hopen, hhandshake] at hcalls
  have hidle : c.write_stream.idleness_timer = false := by
    by_contra hidle
    have hzero := (h.stream.idle (by simpa using hidle)).2
    have hcomplete := (h.stream.needed hstarted hzero).2
    rw [hhandshake] at hcomplete
    contradiction
  have hattached : ({ c.write_stream with
      grpc_stream := some 0
      handshake_complete := true } : WriteStream).Attached c.is_network_enabled 0 :=
    ⟨h.stream.tokens, h.stream.requested, by simp [hopen], fun _ _ => ⟨hopen, rfl⟩,
      fun hi => absurd hi (by simp [hidle]), fun hoff => ⟨(h.stream.offline hoff).1, rfl⟩⟩
  obtain ⟨w, hok, hw, hext⟩ := WriteStream.writeAll_ok c.write_pipeline hattached hopen rfl
  rw [Nat.zero_add] at hw
  have hwopen : w.state = .Open := hext.opened.mpr hopen
  refine ⟨w, ?_, hwopen, hext.handshake, ⟨⟨h.store, h.user, h.callbacks, h.waiting⟩, h.pipeline,
    ⟨hw, fun _ => WriteStream.isStarted_of_open hwopen, fun _ => hwopen⟩⟩⟩
  unfold OnStreamRead
  simp only [hstarted, hhandshake, hcalls, Bool.not_true, Bool.not_false, Bool.false_eq_true,
    if_false, if_true]
  exact bind_ok hok rfl

/-- The client `after` has the first batch of the queue acknowledged, over the same call. -/
structure Acknowledges (c : FirestoreClient) (version : SnapshotVersion)
    (results : List SnapshotVersion) (after : FirestoreClient) : Prop where
  current_user : after.current_user = c.current_user
  network : after.is_network_enabled = c.is_network_enabled
  stream : after.write_stream.Extends c.write_stream
  store : ∃ r changes batches, c.queue = r.batch :: batches ∧ r.commit_version = version ∧
    r.mutation_results = results ∧
    c.local_store.AcknowledgeBatch r = .ok (changes, after.local_store)

/-- The answer to a write settles the first one of the pipeline, and another takes its place. -/
theorem onWriteRead_ok (version : SnapshotVersion) (lost : DocID → Prop) (h : c.Sound)
    (hcall : c.write_stream.grpc_stream = some (k + 1))
    (hhandshake : c.write_stream.handshake_complete = true)
    (hresults : ∀ batch ∈ c.write_pipeline.head?, results.length = batch.mutations.length) :
    ∃ after, c.OnStreamRead (.read version results) = .ok after ∧ after.Sound ∧
      c.ledger.Goes [.settle c.current_user .kErrorOk] lost after.ledger ∧
      c.Acknowledges version results after := by
  have hopen := isOpen_of_calls h (by rw [hcall]; rfl)
  have hstarted := WriteStream.isStarted_of_open hopen
  have hcalls := h.stream.calls
  rw [if_pos hopen, if_pos hhandshake, hcall, Option.some.injEq] at hcalls
  obtain ⟨batch, rest, hpipeline⟩ := List.exists_cons_of_length_eq_add_one hcalls.symm
  obtain ⟨hnetwork, batches, hqueue, hbegins, hplaces⟩ := due_cons (h.pipeline ▸ hpipeline)
  have hrest : rest.length = k := by
    rw [hpipeline, List.length_cons] at hcalls
    omega
  have hmem : batch ∈ c.queue := hqueue ▸ List.mem_cons_self
  have hsizes : batch.mutations.length = results.length :=
    (hresults batch (by rw [hpipeline]; rfl)).symm
  have hattached : ({ c.write_stream with grpc_stream := some k } : WriteStream).Attached
      c.is_network_enabled rest.length := by
    refine ⟨h.stream.tokens, h.stream.requested, by simp [hopen, hhandshake, hrest],
      fun _ _ => ⟨hopen, hhandshake⟩, fun hi => ?_, fun hoff => ?_⟩
    · have hzero := (h.stream.idle hi).2
      rw [hpipeline] at hzero
      contradiction
    · rw [hnetwork] at hoff
      contradiction
  have hstored : ({ c with
      write_pipeline := rest
      write_stream := { c.write_stream with grpc_stream := some k } } : FirestoreClient).Stored :=
    ⟨h.store, h.user, h.callbacks, h.waiting⟩
  obtain ⟨changes, s, hacknowledge, hok, hs⟩ :=
    handleSuccessfulWrite_ok (r := ⟨batch, version, results, hsizes⟩) hstored hmem
  have hstored' := settled_stored .kErrorOk hs hstored hmem
  obtain ⟨after, hfill, hfilled⟩ := fillWritePipeline_ok hstored'
    (by rw [settled_queue, settled_write_pipeline, hs.queue hstored hqueue]; exact hbegins)
    (by rw [settled_write_pipeline]; exact hplaces)
    (by rw [settled_write_stream, settled_is_network_enabled, settled_write_pipeline]; exact hattached)
  have hsame := hfilled.same
  rw [settled, notifyUser_eq] at hsame
  have hext := hfilled.extended
  rw [settled_write_stream] at hext
  have hstore : after.local_store = s := by rw [hsame]
  refine ⟨after, ?_, hfilled.sound hstored' ?_, ?_, by rw [hsame], by rw [hsame],
    ⟨hext.handshake.symm, hext.opened.symm⟩,
    ⟨_, changes, batches, hqueue, rfl, rfl, hstore.symm ▸ hacknowledge⟩⟩
  · unfold OnStreamRead
    simp only [hstarted, Bool.not_true, Bool.false_eq_true, if_false]
    rw [if_neg (by simp [hhandshake])]
    simp only [OnWriteStreamMutationResult, hpipeline, hcall, Option.map_some, Nat.add_sub_cancel]
    exact bind_ok (dif_pos hsizes) (bind_ok hok hfill)
  · rw [settled_write_stream]
    exact fun _ => hopen
  · rw [hfilled.ledger]
    exact settled_goes lost hs hstored hqueue

theorem onUnreadable_ok (h : c.Sound) (hcall : c.write_stream.grpc_stream.isSome = true)
    (hstatus : status ≠ .kErrorOk) :
    ∃ after, c.OnStreamRead (.unreadable status) = .ok after ∧ after.Sound ∧
      c.ledger.Goes (c.rejects status) lost after.ledger := by
  have hstarted := WriteStream.isStarted_of_open (isOpen_of_calls h hcall)
  obtain ⟨after, hclose, hrest⟩ := close_ok lost
    (c := { c with write_stream := { c.write_stream with
      grpc_stream := c.write_stream.grpc_stream.map (· - 1) } })
    ⟨h.store, h.user, h.callbacks, h.waiting⟩ h.pipeline hstarted h.stream.requested hstatus
  refine ⟨after, ?_, hrest⟩
  unfold OnStreamRead
  simp only [hstarted, Bool.not_true, Bool.false_eq_true, if_false]
  exact hclose

/-- After the backoff the stream asks for a token again. -/
theorem backoffElapsed_ok (h : c.Sound) (hstate : c.write_stream.state = .Backoff) :
    ∃ w, c.write_stream.BackoffElapsed = .ok w ∧ w.state = .Starting ∧
      ({ c with write_stream := w } : FirestoreClient).Sound := by
  have hstarted : c.write_stream.IsStarted = true := by simp [WriteStream.IsStarted, hstate]
  have hneeded : c.write_pipeline.length ≠ 0 := by
    intro hzero
    have hopen := (h.stream.needed hstarted hzero).1
    rw [hstate] at hopen
    contradiction
  have htokens := h.stream.tokens
  have hcalls := h.stream.calls
  rw [hstate] at htokens hcalls
  refine ⟨({ c.write_stream with state := .Starting } : WriteStream).RequestCredentials, ?_, rfl,
    ⟨⟨h.store, h.user, h.callbacks, h.waiting⟩, h.pipeline,
      ⟨⟨?_, fun k hk => ?_, hcalls, fun _ hzero => absurd hzero hneeded, fun hi => ?_, fun hoff => ?_⟩,
        fun _ => rfl, fun hcomplete => ?_⟩⟩⟩
  · unfold WriteStream.BackoffElapsed
    simp [hstate, WriteStream.Start, WriteStream.IsStarted, WriteStream.RequestCredentials]
    rfl
  · simp [WriteStream.RequestCredentials, htokens]
  · rcases List.mem_cons.mp hk with rfl | hk
    · exact le_rfl
    · exact h.stream.requested k hk
  · have hopen := (h.stream.idle hi).1
    rw [hstate] at hopen
    contradiction
  · exact absurd (h.stream.offline hoff).2 hneeded
  · have hopen := h.stream.handshake hcomplete
    rw [hstate] at hopen
    contradiction

end Stream

section Store

variable {c : FirestoreClient} {ms : List Mutation} {callback : StatusCallback}
  {lost : DocID → Prop} {docs : DocumentMap} {version : SnapshotVersion} {user : AuthUser}

/-- The client with a new batch of the user, which `callback` waits for. -/
def posted (c : FirestoreClient) (ms : List Mutation) (callback : StatusCallback) : FirestoreClient :=
  { c with
    local_store := c.local_store.enqueued ms
    mutation_callbacks := merge [(LevelDbMutationKey.Key c.current_user
      c.local_store.mutation_queue.next_batch_id, callback)] c.mutation_callbacks }

theorem posted_of (h : c.Stored) (user : AuthUser) : (c.posted ms callback).local_store.db.of user =
    if user = c.current_user then
      c.local_store.db.of user ++ [⟨c.local_store.mutation_queue.next_batch_id, ms⟩]
    else c.local_store.db.of user := by
  rw [← h.user]
  exact LevelDbMutationQueue.of_add h.store.below user

theorem find_posted (h : c.Stored) (key : LevelDbMutationKey) :
    find key (c.posted ms callback).mutation_callbacks = (find key c.mutation_callbacks).or
      (if LevelDbMutationKey.Key c.current_user c.local_store.mutation_queue.next_batch_id = key then
        some callback else none) := by
  rw [posted, find_merge h.callbacks, find_cons, find_nil]

/-- No handler waits for a batch that is not there yet. -/
theorem find_next (h : c.Stored) : find (LevelDbMutationKey.Key c.current_user
    c.local_store.mutation_queue.next_batch_id) c.mutation_callbacks = none := by
  refine find_eq_none.mpr fun hkey => ?_
  obtain ⟨batch, hbatch, hid⟩ := h.waiting _ hkey
  have hrow := (MutationTables.mem_of h.store.consistent).mp hbatch
  have hbelow := h.store.below _ hrow
  rw [LevelDbMutationKey.batch_id_key, hid] at hbelow
  exact absurd hbelow (lt_irrefl _)

theorem posted_stored (h : c.Stored) : (c.posted ms callback).Stored := by
  refine ⟨⟨LevelDbMutationQueue.consistent_add h.store.consistent h.store.below,
    LevelDbMutationQueue.positive_add h.store.next h.store.positive,
    LevelDbMutationQueue.below_add h.store.below, ?_⟩, h.user,
    sorted_merge (List.pairwise_singleton _ _) h.callbacks, fun key hkey => ?_⟩
  · exact lt_trans h.store.next (Int.lt_succ _)
  · rw [posted_of h]
    rcases (mem_keys_merge h.callbacks).mp hkey with hkey | hkey
    · obtain rfl := List.mem_singleton.mp hkey
      refine ⟨⟨c.local_store.mutation_queue.next_batch_id, ms⟩, ?_, rfl⟩
      rw [LevelDbMutationKey.user_id_key, if_pos rfl]
      exact List.mem_append_right _ List.mem_cons_self
    · obtain ⟨batch, hbatch, hid⟩ := h.waiting key hkey
      refine ⟨batch, ?_, hid⟩
      split
      · exact List.mem_append_left _ hbatch
      · exact hbatch

theorem posted_pending (h : c.Stored) : (c.posted ms callback).pending =
    Function.update c.pending c.current_user (c.pending c.current_user ++
      [(⟨c.local_store.mutation_queue.next_batch_id, ms⟩, some callback)]) := by
  have hold : ∀ user, ∀ batch ∈ c.local_store.db.of user,
      find (LevelDbMutationKey.Key user batch.batch_id) (c.posted ms callback).mutation_callbacks =
        find (LevelDbMutationKey.Key user batch.batch_id) c.mutation_callbacks := by
    intro user batch hbatch
    have hbelow := h.store.below _ ((MutationTables.mem_of h.store.consistent).mp hbatch)
    rw [find_posted h, if_neg fun heq => ?_, Option.or_none]
    have hid := (LevelDbMutationKey.eq_key.mp heq).2
    rw [LevelDbMutationKey.batch_id_key] at hid hbelow
    exact absurd hbelow (hid ▸ lt_irrefl _)
  funext user
  by_cases huser : user = c.current_user
  · subst huser
    rw [Function.update_self, pending, posted_of h, if_pos rfl, List.map_append, List.map_singleton,
      find_posted h, find_next h, if_pos rfl]
    exact congrArg (· ++ _) (List.map_congr_left fun b hb => Prod.ext rfl (hold _ b hb))
  · rw [Function.update_of_ne huser, pending, posted_of h, if_neg huser]
    exact List.map_congr_left fun b hb => Prod.ext rfl (hold _ b hb)

theorem posted_goes (h : c.Stored) : c.ledger.Goes [.post c.current_user
    ⟨c.local_store.mutation_queue.next_batch_id, ms⟩ (some callback)] lost
      (c.posted ms callback).ledger := by
  refine ⟨fun o ho => ⟨_, rfl, ?_, ho.told⟩, fun key _ => .refl _, rfl, rfl⟩
  show Function.update o.pending _ _ = (c.posted ms callback).pending
  rw [posted_pending h, ho.pending]
  rfl

/-- A write without mutations is answered at once, any other is posted. -/
theorem writeMutations_ok (lost : DocID → Prop) (h : c.Sound) (ms : List Mutation)
    (callback : StatusCallback) :
    ∃ after, c.WriteMutations ms callback = .ok after ∧ after.Sound ∧
      c.ledger.Goes (if ms.isEmpty then [.answer callback .kErrorOk] else [.post c.current_user
        ⟨c.local_store.mutation_queue.next_batch_id, ms⟩ (some callback)]) lost after.ledger ∧
      (ms ≠ [] → after.local_store = c.local_store.enqueued ms) := by
  unfold WriteMutations
  by_cases hempty : ms.isEmpty = true
  · rw [if_pos hempty, if_pos hempty]
    refine ⟨_, rfl, ⟨⟨h.store, h.user, h.callbacks, h.waiting⟩, h.pipeline, h.stream⟩,
      ⟨fun o ho => ⟨_, rfl, ho.pending, ?_⟩, fun _ _ => .refl _, rfl, rfl⟩,
      fun hne => absurd (List.isEmpty_iff.mp hempty) hne⟩
    have htold := ho.told
    unfold Outbox.told at htold ⊢
    rw [List.filterMap_append, htold]
    rfl
  · rw [if_neg hempty, if_neg hempty]
    obtain ⟨changes, hwrite, -⟩ := writeLocally_ok h.store.consistent h.store.below ms
    have hqueue : (c.posted ms callback).queue =
        c.queue ++ [⟨c.local_store.mutation_queue.next_batch_id, ms⟩] :=
      (posted_of h.toStored c.current_user).trans (if_pos rfl)
    obtain ⟨after, hfill, hfilled⟩ := fillWritePipeline_ok (c := c.posted ms callback)
      (posted_stored h.toStored)
      (by rw [hqueue]; exact (h.pipeline ▸ due_begins).trans (List.prefix_append _ _))
      (h.pipeline ▸ due_length) h.stream.toAttached
    refine ⟨after, bind_ok hwrite hfill,
      hfilled.sound (posted_stored h.toStored) h.stream.handshake, ?_, fun _ => ?_⟩
    · rw [hfilled.ledger]
      exact posted_goes h.toStored
    · rw [hfilled.same]
      rfl

/-- What the backend says about documents leaves the writes as they are. -/
theorem applyRemote_ok (h : c.Sound) (hdocs : FromBackend version docs)
    (hversion : version ≠ .None →
      ¬SnapshotVersion.Less version c.local_store.db.last_remote_snapshot_version) :
    ∃ after, c.ApplyRemoteEvent docs version = .ok after ∧ after.Sound ∧
      c.ledger.Goes [] (fun key => ∃ kv ∈ docs, kv.1 = key ∧ AccessLost kv.2) after.ledger := by
  obtain ⟨changes, s, hok, hmq, htables, hget⟩ :=
    applyRemoteEvent_ok h.store.consistent hdocs hversion
  have hof : ∀ user, s.db.of user = c.local_store.db.of user := fun user => by rw [htables]
  have hstored : ({ c with local_store := s } : FirestoreClient).Stored := by
    refine ⟨⟨?_, ?_, ?_, ?_⟩, ?_, h.callbacks, fun key hkey => ?_⟩
    · rw [htables]
      exact h.store.consistent
    · rw [htables]
      exact h.store.positive
    · rw [htables, hmq]
      exact h.store.below
    · rw [hmq]
      exact h.store.next
    · rw [hmq]
      exact h.user
    · rw [hof]
      exact h.waiting key hkey
  have hdue : ({ c with local_store := s } : FirestoreClient).due = c.due := by
    rw [due, due, queue, queue, hof]
  refine ⟨_, bind_ok hok rfl, ⟨hstored, h.pipeline.trans hdue.symm, h.stream⟩,
    fun o ho => ⟨o, rfl, ho.pending.trans ?_, ho.told⟩, fun key hkey => ?_, rfl, rfl⟩
  · funext user
    show (c.local_store.db.of user).map _ = (s.db.of user).map _
    rw [hof]
  · exact hget key fun kv hkv heq hlost => hkey ⟨kv, hkv, heq, hlost⟩

/-- A client that starts takes up the writes that it finds, and nobody waits for them. -/
theorem initialize_ok {db : LevelDb} (hconsistent : db.Consistent) (hpositive : db.Positive)
    (user : AuthUser) (called : List (StatusCallback × Status)) :
    ∃ after, Initialize db user called = .ok after ∧ after.Sound ∧ after.ledger =
      ⟨user, true, fun user => (db.of user).map fun batch => (batch, none), called, db.Get⟩ := by
  unfold Initialize
  obtain ⟨after, hok, hsound, hledger⟩ := enableNetwork_ok
    (c := {
      local_store :=
        { db := db, mutation_queue := LevelDbMutationQueue.Start ⟨user, 1⟩ db.toMutationTables }
      current_user := user
      mutation_callbacks := []
      is_network_enabled := false
      write_pipeline := []
      write_stream := .new
      called := called })
    ⟨⟨hconsistent, hpositive, LevelDbMutationQueue.start_below, LevelDbMutationQueue.start_positive⟩,
      rfl, List.Pairwise.nil, fun key hkey => absurd hkey List.not_mem_nil⟩
    List.nil_prefix (Nat.zero_le _)
    ⟨rfl, fun k hk => absurd hk List.not_mem_nil, rfl, fun hs => absurd hs Bool.false_ne_true,
      fun hi => absurd hi Bool.false_ne_true, fun _ => ⟨rfl, rfl⟩⟩
    (fun hcomplete => absurd hcomplete Bool.false_ne_true)
  exact ⟨after, hok, hsound, hledger⟩

end Store

/-- The documents to which access is lost. -/
def Event.Loses : Event → DocID → Prop
  | .ApplyRemoteEvent document_updates _, key => ∃ kv ∈ document_updates, kv.1 = key ∧ AccessLost kv.2
  | _, _ => False

/-- Who is signed in after a task. -/
def Event.signedIn (user : AuthUser) : Event → AuthUser
  | .HandleCredentialChange user => user
  | .Restart user => user
  | _ => user

/-- Whether the network is enabled after a task. -/
def Event.connected (network : Bool) : Event → Bool
  | .EnableNetwork => true
  | .DisableNetwork => false
  | .Restart _ => true
  | _ => network

/-- What a task does for those who wait. -/
def acts (c : FirestoreClient) : Event → List Action
  | .WriteMutations mutations callback =>
    if mutations.isEmpty then [.answer callback .kErrorOk]
    else [.post c.current_user ⟨c.local_store.mutation_queue.next_batch_id, mutations⟩ (some callback)]
  | .OnStreamRead (.read _ _) =>
    if c.write_stream.handshake_complete then [.settle c.current_user .kErrorOk] else []
  | .OnStreamRead (.unreadable status) => c.rejects status
  | .OnStreamFinish status => c.rejects status
  | .Restart _ => [.forget]
  | _ => []

/-- A task that may come to a sound client fails no assertion and leaves it sound. -/
theorem handle_ok {c : FirestoreClient} {e : Event} (h : c.Sound) (he : c.Occurs e) :
    ∃ after, c.handle e = .ok after ∧ after.Sound ∧
      ({ c.ledger with
        user := e.signedIn c.current_user
        network := e.connected c.is_network_enabled } : Ledger).Goes (c.acts e) e.Loses
          after.ledger := by
  have hquiet : ∀ l, (∃ after, c.handle e = .ok after ∧ after.Sound ∧ after.ledger = l) →
      ∃ after, c.handle e = .ok after ∧ after.Sound ∧ l.Goes [] e.Loses after.ledger := by
    rintro l ⟨after, hok, hsound, hledger⟩
    exact ⟨after, hok, hsound, hledger ▸ .refl _ _⟩
  cases e with
  | WriteMutations mutations callback =>
    obtain ⟨after, hok, hsound, hgoes, -⟩ := writeMutations_ok _ h mutations callback
    exact ⟨after, hok, hsound, hgoes⟩
  | ApplyRemoteEvent document_updates snapshot_version => exact applyRemote_ok h he.1 he.2
  | HandleCredentialChange user => exact hquiet _ (handleCredentialChange_ok h user)
  | EnableNetwork =>
    refine hquiet _ (enableNetwork_ok h.toStored (h.pipeline ▸ due_begins) (h.pipeline ▸ due_length) ?_
      h.stream.handshake)
    exact ⟨h.stream.tokens, h.stream.requested, h.stream.calls, h.stream.needed, h.stream.idle,
      fun hoff => absurd hoff Bool.noConfusion⟩
  | DisableNetwork => exact hquiet _ (disableNetwork_ok h.toStored h.stream)
  | OnConnectivityChange => exact hquiet _ (onConnectivityChange_ok h)
  | OnToken initial_close_count maybe_token => exact onToken_ok h he
  | OnStreamRead message =>
    cases message with
    | read commit_version mutation_results =>
      obtain ⟨⟨k, hcall⟩, hresults⟩ := he
      cases hhandshake : c.write_stream.handshake_complete with
      | false =>
        have hopen := isOpen_of_calls h (by rw [hcall]; rfl)
        simp only [acts, hhandshake, Bool.false_eq_true, if_false]
        obtain ⟨w, hok, -, -, hsound⟩ := onHandshakeRead_ok commit_version mutation_results h hopen
          hhandshake
        exact ⟨_, hok, hsound, .refl _ _⟩
      | true =>
        simp only [acts, hhandshake, if_true]
        obtain ⟨after, hok, hsound, hgoes, -⟩ := onWriteRead_ok commit_version _ h hcall hhandshake
          fun batch hbatch => hresults batch hbatch hhandshake
        exact ⟨after, hok, hsound, hgoes⟩
    | unreadable status => exact onUnreadable_ok h he.1 he.2
  | OnStreamFinish status => exact onStreamFinish_ok h he.1 he.2
  | BackoffElapsed =>
    obtain ⟨w, hok, -, hsound⟩ := backoffElapsed_ok h he
    exact hquiet _ ⟨_, bind_ok hok rfl, hsound, rfl⟩
  | IdleTimeout =>
    exact hquiet _ (stopUnneeded_ok h (List.length_eq_zero_iff.mp (h.stream.idle he).2))
  | Restart user =>
    obtain ⟨after, hok, hsound, hledger⟩ :=
      initialize_ok h.store.consistent h.store.positive user c.called
    refine ⟨after, hok, hsound, fun o ho => ⟨_, rfl, ?_, ?_⟩, fun key _ => ?_, ?_, ?_⟩
    · rw [hledger]
      show (fun user => (o.pending user).map fun item => (item.1, none)) = _
      rw [ho.pending]
      funext user
      exact List.map_map
    · rw [hledger]
      exact ho.told
    · rw [hledger]
      exact .refl _
    · rw [hledger]
      rfl
    · rw [hledger]
      rfl

end FirestoreClient

end VoisinMalin
