import VoisinMalin.Firestore.LocalStore

/-! The way of a write to the backend in the Firestore SDK: the sync engine puts it into the queue, the
remote store fetches up to ten batches from the queue and sends them over the write stream, and the
answers of the backend, which come in the order of the batches, settle them. All of it runs on one
queue of tasks, so each task is one step. The watch stream is left out, but for the documents that it
brings. -/

namespace VoisinMalin

open SortedMap

/-- The codes of a status. -/
inductive Status where
  | kErrorOk | kErrorCancelled | kErrorUnknown | kErrorInvalidArgument | kErrorDeadlineExceeded
  | kErrorNotFound | kErrorAlreadyExists | kErrorPermissionDenied | kErrorResourceExhausted
  | kErrorFailedPrecondition | kErrorAborted | kErrorOutOfRange | kErrorUnimplemented
  | kErrorInternal | kErrorUnavailable | kErrorDataLoss | kErrorUnauthenticated
deriving DecidableEq

def Status.ok (status : Status) : Bool := status == .kErrorOk

namespace Datastore

def IsPermanentError : Status → Except String Bool
  | .kErrorOk => .error "Treated status OK as error"
  | .kErrorCancelled | .kErrorUnknown | .kErrorDeadlineExceeded | .kErrorResourceExhausted
  | .kErrorInternal | .kErrorUnavailable | .kErrorUnauthenticated => .ok false
  | .kErrorInvalidArgument | .kErrorNotFound | .kErrorAlreadyExists | .kErrorPermissionDenied
  | .kErrorFailedPrecondition | .kErrorAborted | .kErrorOutOfRange | .kErrorUnimplemented
  | .kErrorDataLoss => .ok true

def IsPermanentWriteError (error : Status) : Except String Bool := do
  return (← IsPermanentError error) && error != .kErrorAborted

end Datastore

inductive StreamState where
  | Initial | Starting | Open | Error | Backoff
deriving DecidableEq

structure WriteStream where
  state : StreamState
  handshake_complete : Bool
  close_count : ℕ
  /-- The requests for a token that are under way, by the close count at which they were made. -/
  token_requests : List ℕ
  /-- The call to the backend, by the number of requests that it has not answered. -/
  grpc_stream : Option ℕ
  idleness_timer : Bool

namespace WriteStream

def new : WriteStream := ⟨.Initial, false, 0, [], none, false⟩

def IsOpen (w : WriteStream) : Bool := w.state == .Open

def IsStarted (w : WriteStream) : Bool := w.state == .Starting || w.state == .Backoff || w.IsOpen

def RequestCredentials (w : WriteStream) : WriteStream :=
  { w with token_requests := w.close_count :: w.token_requests }

def BackoffAndTryRestarting (w : WriteStream) : Except String WriteStream :=
  if w.state ≠ .Error then .error "Should only perform backoff in an error case"
  else .ok { w with state := .Backoff }

def Start (w : WriteStream) : Except String WriteStream :=
  if w.state = .Error then w.BackoffAndTryRestarting
  else if w.state ≠ .Initial then .error "Already started"
  else .ok ({ w with state := .Starting } : WriteStream).RequestCredentials

/-- The timer of the backoff has run out. -/
def BackoffElapsed (w : WriteStream) : Except String WriteStream := do
  if w.state ≠ .Backoff then throw "Backoff elapsed but state is now: %s"
  let w ← ({ w with state := .Initial } : WriteStream).Start
  if !w.IsStarted then throw "Stream should have started."
  return w

def InhibitBackoff (w : WriteStream) : Except String WriteStream :=
  if w.IsStarted then .error "Can only cancel backoff in a stopped state (was %s)"
  else .ok { w with state := .Initial }

def MarkIdle (w : WriteStream) : WriteStream :=
  if w.IsOpen && !w.idleness_timer then { w with idleness_timer := true } else w

def Write (w : WriteStream) : Except String WriteStream :=
  if !w.IsOpen then .error "Cannot write when the stream is not open."
  else .ok { w with idleness_timer := false, grpc_stream := w.grpc_stream.map (· + 1) }

def WriteHandshake (w : WriteStream) : Except String WriteStream :=
  if !w.IsOpen then .error "Writing handshake requires an opened stream"
  else if w.handshake_complete then .error "Handshake already completed"
  else w.Write

def WriteMutations (w : WriteStream) : Except String WriteStream :=
  if !w.IsOpen then .error "Writing mutations requires an opened stream"
  else if !w.handshake_complete then
    .error "Handshake must be complete before writing mutations"
  else w.Write

end WriteStream

def kMaxPendingWrites : ℕ := 10

/-- A completion handler, by the number of the call that it was given to. -/
abbrev StatusCallback := ℕ

/-- The local store, the sync engine and the remote store of a client. -/
structure FirestoreClient where
  local_store : LocalStore
  current_user : AuthUser
  mutation_callbacks : List (LevelDbMutationKey × StatusCallback)
  is_network_enabled : Bool
  write_pipeline : List MutationBatch
  write_stream : WriteStream
  /-- The completion handlers that have been called, in their order. -/
  called : List (StatusCallback × Status)

namespace FirestoreClient

variable (c : FirestoreClient)

def CanUseNetwork : Bool := c.is_network_enabled

def ShouldStartWriteStream : Bool :=
  c.CanUseNetwork && !c.write_stream.IsStarted && !c.write_pipeline.isEmpty

def StartWriteStream : Except String FirestoreClient := do
  if !c.ShouldStartWriteStream then
    throw "StartWriteStream called when ShouldStartWriteStream is false."
  return { c with write_stream := ← c.write_stream.Start }

def CanAddToWritePipeline : Bool :=
  c.CanUseNetwork && decide (c.write_pipeline.length < kMaxPendingWrites)

def AddToWritePipeline (batch : MutationBatch) : Except String FirestoreClient := do
  if !c.CanAddToWritePipeline then throw "AddToWritePipeline called when pipeline is full"
  let c := { c with write_pipeline := c.write_pipeline ++ [batch] }
  if c.write_stream.IsOpen && c.write_stream.handshake_complete then
    return { c with write_stream := ← c.write_stream.WriteMutations }
  return c

def GetNextMutationBatch (batch_id : BatchId) : Option MutationBatch :=
  c.local_store.mutation_queue.NextMutationBatchAfterBatchId batch_id
    c.local_store.db.toMutationTables

/-- The loop of `FillWritePipeline`, with the number of the turns that it may still take: each fills one
of the places, and there are `kMaxPendingWrites`. -/
def FillWritePipeline.loop : ℕ → BatchId → FirestoreClient → Except String FirestoreClient
  | 0, _, c => .ok c
  | turns + 1, last_batch_id_retrieved, c =>
    if !c.CanAddToWritePipeline then .ok c
    else
      match c.GetNextMutationBatch last_batch_id_retrieved with
      | none =>
        .ok (if c.write_pipeline.isEmpty then
          { c with write_stream := c.write_stream.MarkIdle } else c)
      | some batch => do loop turns batch.batch_id (← c.AddToWritePipeline batch)

def FillWritePipeline : Except String FirestoreClient := do
  let last_batch_id_retrieved :=
    (c.write_pipeline.getLast?.map MutationBatch.batch_id).getD kBatchIdUnknown
  let c ← FillWritePipeline.loop kMaxPendingWrites last_batch_id_retrieved c
  if c.ShouldStartWriteStream then c.StartWriteStream else return c

def NotifyUser (batch_id : BatchId) (status : Status) : FirestoreClient :=
  let key := LevelDbMutationKey.Key c.current_user batch_id
  match find key c.mutation_callbacks with
  | none => c
  | some callback =>
    { c with
      called := c.called ++ [(callback, status)]
      mutation_callbacks := c.mutation_callbacks.filter fun entry => decide (entry.1 ≠ key) }

def HandleSuccessfulWrite (batch_result : MutationBatchResult) : Except String FirestoreClient := do
  let c := c.NotifyUser batch_result.batch.batch_id .kErrorOk
  let (_, local_store) ← c.local_store.AcknowledgeBatch batch_result
  return { c with local_store := local_store }

def HandleRejectedWrite (batch_id : BatchId) (error : Status) : Except String FirestoreClient := do
  let (_, local_store) ← c.local_store.RejectBatch batch_id
  return ({ c with local_store := local_store } : FirestoreClient).NotifyUser batch_id error

def OnWriteStreamOpen : Except String FirestoreClient := do
  return { c with write_stream := ← c.write_stream.WriteHandshake }

def OnWriteStreamHandshakeComplete : Except String FirestoreClient := do
  let write_stream ← c.write_pipeline.foldlM (fun w _ => w.WriteMutations) c.write_stream
  return { c with write_stream := write_stream }

def OnWriteStreamMutationResult (commit_version : SnapshotVersion)
    (mutation_results : List SnapshotVersion) : Except String FirestoreClient :=
  match c.write_pipeline with
  | [] => .error "Got result for empty write pipeline"
  | batch :: rest => do
    let c := { c with write_pipeline := rest }
    let batch_result ← MutationBatchResult.new batch commit_version mutation_results
    let c ← c.HandleSuccessfulWrite batch_result
    c.FillWritePipeline

def HandleHandshakeError (status : Status) : Except String FirestoreClient := do
  if status.ok then throw "Handling write error with status OK."
  let _ ← Datastore.IsPermanentError status -- resets the stream token
  return c

def HandleWriteError (status : Status) : Except String FirestoreClient := do
  if status.ok then throw "Handling write error with status OK."
  if !(← Datastore.IsPermanentWriteError status) then return c
  match c.write_pipeline with
  | [] => return c -- the caller has seen to it that there is a write
  | batch :: rest =>
    let c := { c with write_pipeline := rest }
    let c := { c with write_stream := ← c.write_stream.InhibitBackoff }
    let c ← c.HandleRejectedWrite batch.batch_id status
    c.FillWritePipeline

def OnWriteStreamClose (status : Status) : Except String FirestoreClient := do
  if status.ok && c.ShouldStartWriteStream then
    throw "Write stream was stopped gracefully while still needed."
  let c ←
    if !status.ok && !c.write_pipeline.isEmpty then
      if c.write_stream.handshake_complete then c.HandleWriteError status
      else c.HandleHandshakeError status
    else pure c
  if c.ShouldStartWriteStream then c.StartWriteStream else return c

def Close (status : Status) : Except String FirestoreClient := do
  if status.ok && !c.write_stream.IsStarted then return c
  if !c.write_stream.IsStarted then throw "Trying to close a non-started stream"
  let c := { c with write_stream := { c.write_stream with
    idleness_timer := false
    close_count := c.write_stream.close_count + 1
    grpc_stream := none
    state := if status.ok then .Initial else .Error } }
  let c ← c.OnWriteStreamClose status
  return { c with write_stream := { c.write_stream with handshake_complete := false } }

def Stop : Except String FirestoreClient := c.Close .kErrorOk

def OnStreamFinish (status : Status) : Except String FirestoreClient := c.Close status

def OnStreamStart : Except String FirestoreClient :=
  ({ c with write_stream := { c.write_stream with state := .Open } } :
    FirestoreClient).OnWriteStreamOpen

/-- The call to the backend tells of its start as soon as it is made. -/
def ResumeStartWithCredentials (maybe_token : Status) : Except String FirestoreClient :=
  if c.write_stream.state ≠ .Starting then .error "State should still be 'Starting' (was %s)"
  else if !maybe_token.ok then c.OnStreamFinish maybe_token
  else
    ({ c with write_stream := { c.write_stream with grpc_stream := some 0 } } :
      FirestoreClient).OnStreamStart

/-- The token that was requested at `initial_close_count` is there, or the request has failed. -/
def OnToken (initial_close_count : ℕ) (maybe_token : Status) : Except String FirestoreClient :=
  let c := { c with write_stream := { c.write_stream with
    token_requests := c.write_stream.token_requests.erase initial_close_count } }
  if c.write_stream.close_count ≠ initial_close_count then .ok c
  else c.ResumeStartWithCredentials maybe_token

/-- An answer of the backend to a request, which may be unreadable. -/
inductive Response where
  | read (commit_version : SnapshotVersion) (mutation_results : List SnapshotVersion)
  | unreadable (status : Status)

def OnStreamRead (message : Response) : Except String FirestoreClient := do
  if !c.write_stream.IsStarted then throw "OnStreamRead called for a stopped stream."
  let c := { c with write_stream := { c.write_stream with
    grpc_stream := c.write_stream.grpc_stream.map (· - 1) } }
  match message with
  | .unreadable status => c.OnStreamFinish status
  | .read commit_version mutation_results =>
    if !c.write_stream.handshake_complete then
      ({ c with write_stream := { c.write_stream with handshake_complete := true } } :
        FirestoreClient).OnWriteStreamHandshakeComplete
    else c.OnWriteStreamMutationResult commit_version mutation_results

def DisableNetworkInternal : Except String FirestoreClient := do
  let c ← c.Stop
  return { c with write_pipeline := [] }

def EnableNetwork : Except String FirestoreClient :=
  ({ c with is_network_enabled := true } : FirestoreClient).FillWritePipeline

def DisableNetwork : Except String FirestoreClient :=
  ({ c with is_network_enabled := false } : FirestoreClient).DisableNetworkInternal

def RestartNetwork : Except String FirestoreClient := do
  let c ← ({ c with is_network_enabled := false } : FirestoreClient).DisableNetworkInternal
  let c := { c with write_stream := ← c.write_stream.InhibitBackoff }
  c.EnableNetwork

/-- The network has become available again. -/
def OnConnectivityChange : Except String FirestoreClient :=
  if c.CanUseNetwork then c.RestartNetwork else .ok c

def HandleCredentialChange (user : AuthUser) : Except String FirestoreClient := do
  let user_changed := c.current_user != user
  let c := { c with current_user := user }
  let c ←
    if user_changed then do
      let (_, local_store) ← c.local_store.HandleUserChange user
      pure { c with local_store := local_store }
    else pure c
  if c.CanUseNetwork then c.RestartNetwork else return c

def WriteMutations (mutations : List Mutation) (callback : StatusCallback) :
    Except String FirestoreClient := do
  if mutations.isEmpty then return { c with called := c.called ++ [(callback, .kErrorOk)] }
  let (result, local_store) ← c.local_store.WriteLocally mutations
  let c := { c with
    local_store := local_store
    -- `insert` keeps a handler that is there.
    mutation_callbacks := merge [(LevelDbMutationKey.Key c.current_user result.batch_id, callback)]
      c.mutation_callbacks }
  c.FillWritePipeline

def ApplyRemoteEvent (document_updates : DocumentMap) (snapshot_version : SnapshotVersion) :
    Except String FirestoreClient := do
  let (_, local_store) ← c.local_store.ApplyRemoteEvent document_updates snapshot_version
  return { c with local_store := local_store }

/-- A client over what the database has, when the app starts. -/
def Initialize (db : LevelDb) (user : AuthUser) (called : List (StatusCallback × Status)) :
    Except String FirestoreClient :=
  ({ local_store :=
      { db := db, mutation_queue := LevelDbMutationQueue.Start ⟨user, 1⟩ db.toMutationTables }
     current_user := user
     mutation_callbacks := []
     is_network_enabled := false
     write_pipeline := []
     write_stream := .new
     called := called } : FirestoreClient).EnableNetwork

end FirestoreClient

end VoisinMalin
