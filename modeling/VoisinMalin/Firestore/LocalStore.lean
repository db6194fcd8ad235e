import VoisinMalin.Firestore.MutationQueue

/-! The local store of the Firestore SDK: the documents of the backend that are cached, the batches that
the backend has not acknowledged, and the local view, in which the batches of the user are applied to
the cached documents. An acknowledged batch moves from the queue into the cache, a rejected one is
dropped, and what the backend says about a document replaces what is cached unless it is older. -/

namespace VoisinMalin

open SortedMap

namespace SnapshotVersion

def None : SnapshotVersion := (0, 0)

/-- The order of the timestamps. -/
def Less (a b : SnapshotVersion) : Prop := toLex a < toLex b

instance : DecidableRel Less := fun a b => inferInstanceAs (Decidable (toLex a < toLex b))

end SnapshotVersion

namespace MutableDocument

def is_no_document (doc : MutableDocument) : Bool := doc.document_type == .kNoDocument

def has_pending_writes (doc : MutableDocument) : Bool := doc.document_state != .kSynced

end MutableDocument

/-- `type() == Type::Patch`. -/
def Mutation.is_patch : Mutation → Bool
  | .Patch .. => true
  | _ => false

abbrev DocumentMap := List (DocID × MutableDocument)

/-- The tables of the queues, the remote document cache with its rows of read times, and the target
cache. -/
structure LevelDb extends MutationTables where
  remote_documents : DocumentMap
  read_times : Finset (SnapshotVersion × DocID)
  last_remote_snapshot_version : SnapshotVersion
  documents_ascending : Sorted remote_documents

namespace LevelDb

/-- The database of an app that is new. -/
def new : LevelDb := ⟨⟨[], ∅, List.Pairwise.nil⟩, [], ∅, .None, List.Pairwise.nil⟩

def Get (db : LevelDb) (key : DocID) : MutableDocument :=
  (find key db.remote_documents).getD .InvalidDocument

def Add (db : LevelDb) (key : DocID) (doc : MutableDocument) (read_time : SnapshotVersion) :
    LevelDb :=
  { db with
    remote_documents := merge db.remote_documents [(key, doc)]
    read_times := insert (read_time, key) db.read_times
    documents_ascending := sorted_merge db.documents_ascending (List.pairwise_singleton _ _) }

def Remove (db : LevelDb) (key : DocID) : LevelDb :=
  { db with
    remote_documents := db.remote_documents.filter fun row => decide (row.1 ≠ key)
    documents_ascending := db.documents_ascending.filter _ }

def GetAll (db : LevelDb) (keys : Finset DocID) : DocumentMap :=
  keys.sort.map fun key => (key, db.Get key)

def GetAllExisting (db : LevelDb) (keys : Finset DocID) : DocumentMap :=
  (db.GetAll keys).filter fun row => row.2.is_found_document

/-- The documents that have been cached after the read time. -/
def remote_keys (db : LevelDb) (since_read_time : SnapshotVersion) : Finset DocID :=
  (db.read_times.filter fun row => SnapshotVersion.Less since_read_time row.1).image Prod.snd

/-- The documents of the collection that are there, of those cached after the read time if there is
one. -/
def GetMatching (db : LevelDb) (since_read_time : SnapshotVersion) : DocumentMap :=
  if since_read_time ≠ .None then db.GetAllExisting (db.remote_keys since_read_time)
  else db.remote_documents.filter fun row => row.2.is_found_document

end LevelDb

namespace MutationBatch

def ApplyToLocalDocument (batch : MutationBatch) (key : DocID) (doc : MutableDocument) :
    MutableDocument :=
  batch.mutations.foldl
    (fun doc mutation => if mutation.key = key then mutation.ApplyToLocalView doc else doc) doc

/-- The whole batch is applied for each of its mutations. -/
def ApplyToLocalDocumentSet.step (batch : MutationBatch) (document_map : DocumentMap)
    (mutation : Mutation) : Except String DocumentMap :=
  match find mutation.key document_map with
  | none => .error "document for key %s not found"
  | some document =>
    let document := batch.ApplyToLocalDocument mutation.key document
    let document :=
      if !document.is_valid_document then .ConvertToNoDocument .None else document
    .ok (merge document_map [(mutation.key, document)])

def ApplyToLocalDocumentSet (batch : MutationBatch) (document_map : DocumentMap) :
    Except String DocumentMap :=
  batch.mutations.foldlM (ApplyToLocalDocumentSet.step batch) document_map

end MutationBatch

/-- The answer of the backend has a result for each mutation of the batch: its version. -/
structure MutationBatchResult where
  batch : MutationBatch
  commit_version : SnapshotVersion
  mutation_results : List SnapshotVersion
  sizes : batch.mutations.length = mutation_results.length

namespace MutationBatchResult

def new (batch : MutationBatch) (commit_version : SnapshotVersion)
    (mutation_results : List SnapshotVersion) : Except String MutationBatchResult :=
  if h : batch.mutations.length = mutation_results.length then
    .ok ⟨batch, commit_version, mutation_results, h⟩
  else .error "Number of mutations sent %s must equal results received %s"

/-- The version of the last result for the document. -/
def doc_versions (r : MutationBatchResult) (key : DocID) : Option SnapshotVersion :=
  (r.batch.mutations.zip r.mutation_results).foldl
    (fun version result => if result.1.key = key then some result.2 else version) none

end MutationBatchResult

def MutationBatch.ApplyToRemoteDocument (batch : MutationBatch) (key : DocID) (doc : MutableDocument)
    (r : MutationBatchResult) : MutableDocument :=
  (batch.mutations.zip r.mutation_results).foldl (fun doc result =>
    if result.1.key = key then result.1.ApplyToRemoteDocument result.2 doc else doc) doc

structure LocalStore where
  db : LevelDb
  mutation_queue : LevelDbMutationQueue

structure LocalWriteResult where
  batch_id : BatchId
  changes : DocumentMap

namespace LocalStore

/-- `LocalDocumentsView::GetDocument`. -/
def ReadDocument (s : LocalStore) (key : DocID) : Except String MutableDocument := do
  let batches ← s.mutation_queue.AllMutationBatchesAffectingDocumentKey key s.db.toMutationTables
  return batches.foldl (fun document batch => batch.ApplyToLocalDocument key document) (s.db.Get key)

def ApplyLocalMutationsToDocuments (docs : DocumentMap) (batches : List MutationBatch) :
    DocumentMap :=
  docs.map fun kv => (kv.1,
    batches.foldl (fun local_view batch => batch.ApplyToLocalDocument kv.1 local_view) kv.2)

def GetLocalViewOfDocuments (s : LocalStore) (docs : DocumentMap) : Except String DocumentMap := do
  let all_keys := (keys docs).toFinset
  let batches ←
    s.mutation_queue.AllMutationBatchesAffectingDocumentKeys all_keys s.db.toMutationTables
  return ApplyLocalMutationsToDocuments docs batches

def GetDocuments (s : LocalStore) (keys : Finset DocID) : Except String DocumentMap :=
  s.GetLocalViewOfDocuments (s.db.GetAll keys)

def AddMissingBaseDocuments.step (existing_docs : DocumentMap) (kv : DocID × MutableDocument) :
    DocumentMap :=
  if kv.2.is_found_document then merge existing_docs [kv] else existing_docs

def AddMissingBaseDocuments (s : LocalStore) (matching_batches : List MutationBatch)
    (existing_docs : DocumentMap) : DocumentMap :=
  let missing_doc_keys := ((matching_batches.flatMap MutationBatch.mutations).filter fun mutation =>
    mutation.is_patch && (find mutation.key existing_docs).isNone).map Mutation.key
  (s.db.GetAll missing_doc_keys.toFinset).foldl AddMissingBaseDocuments.step existing_docs

/-- A query of the collection, by what it asks of the data of a document. -/
abbrev CollectionQuery := ObjectValue → Bool

def Matches (query : CollectionQuery) (doc : MutableDocument) : Bool :=
  doc.is_found_document && query doc.value

def GetDocumentsMatchingCollectionQuery.step (remote_documents : DocumentMap) (mutation : Mutation) :
    DocumentMap :=
  let document := (find mutation.key remote_documents).getD .InvalidDocument
  merge remote_documents [(mutation.key, mutation.ApplyToLocalView document)]

def GetDocumentsMatchingCollectionQuery (s : LocalStore) (query : CollectionQuery)
    (since_read_time : SnapshotVersion) : Except String DocumentMap := do
  let remote_documents := s.db.GetMatching since_read_time
  let matching_batches ←
    s.mutation_queue.AllMutationBatchesAffectingQuery s.db.toMutationTables
  let remote_documents := s.AddMissingBaseDocuments matching_batches remote_documents
  let remote_documents := matching_batches.foldl (fun remote_documents batch =>
    batch.mutations.foldl GetDocumentsMatchingCollectionQuery.step remote_documents) remote_documents
  return remote_documents.filter fun kv => Matches query kv.2

def WriteLocally (s : LocalStore) (mutations : List Mutation) :
    Except String (LocalWriteResult × LocalStore) := do
  let existing_documents ← s.GetDocuments (mutations.map Mutation.key).toFinset
  let (batch, mutation_queue, tables) :=
    s.mutation_queue.AddMutationBatch mutations s.db.toMutationTables
  let changes ← batch.ApplyToLocalDocumentSet existing_documents
  return (⟨batch.batch_id, changes⟩,
    { db := { s.db with toMutationTables := tables }, mutation_queue := mutation_queue })

def ApplyBatchResult.step (batch_result : MutationBatchResult) (db : LevelDb) (doc_key : DocID) :
    Except String LevelDb :=
  match batch_result.doc_versions doc_key with
  | none => .error "doc_versions should contain every doc in the write."
  | some ack_version =>
    let doc := db.Get doc_key
    if SnapshotVersion.Less doc.version ack_version then
      let doc := batch_result.batch.ApplyToRemoteDocument doc_key doc batch_result
      .ok (if doc.is_valid_document then db.Add doc_key doc batch_result.commit_version else db)
    else .ok db

def ApplyBatchResult (s : LocalStore) (batch_result : MutationBatchResult) :
    Except String LocalStore := do
  let batch := batch_result.batch
  let db ← batch.keys.sort.foldlM (ApplyBatchResult.step batch_result) s.db
  let tables ← s.mutation_queue.RemoveMutationBatch batch db.toMutationTables
  return { s with db := { db with toMutationTables := tables } }

def AcknowledgeBatch (s : LocalStore) (batch_result : MutationBatchResult) :
    Except String (DocumentMap × LocalStore) := do
  let s ← s.ApplyBatchResult batch_result
  s.mutation_queue.PerformConsistencyCheck s.db.toMutationTables
  return (← s.GetDocuments batch_result.batch.keys, s)

def RejectBatch (s : LocalStore) (batch_id : BatchId) : Except String (DocumentMap × LocalStore) :=
  match s.mutation_queue.LookupMutationBatch batch_id s.db.toMutationTables with
  | none => .error "Attempt to reject nonexistent batch!"
  | some to_reject => do
    let tables ← s.mutation_queue.RemoveMutationBatch to_reject s.db.toMutationTables
    let s := { s with db := { s.db with toMutationTables := tables } }
    s.mutation_queue.PerformConsistencyCheck s.db.toMutationTables
    return (← s.GetDocuments to_reject.keys, s)

/-- The document is removed, replaced, or kept because the update is outdated. -/
def PopulateDocumentChange (global_version : SnapshotVersion) (db : LevelDb)
    (kv : DocID × MutableDocument) : Except String (DocumentMap × LevelDb) :=
  let existing_doc := db.Get kv.1
  if kv.2.is_no_document && kv.2.version == .None then .ok ([kv], db.Remove kv.1)
  else if !existing_doc.is_valid_document ∨ SnapshotVersion.Less existing_doc.version kv.2.version ∨
      kv.2.version = existing_doc.version ∧ existing_doc.has_pending_writes then
    if global_version = .None then
      .error "Cannot add a document when the remote version is zero"
    else .ok ([kv], db.Add kv.1 kv.2 global_version)
  else .ok ([], db)

def PopulateDocumentChanges (global_version : SnapshotVersion) :
    DocumentMap → LevelDb → Except String (DocumentMap × LevelDb)
  | [], db => .ok ([], db)
  | kv :: documents, db => do
    let (first, db) ← PopulateDocumentChange global_version db kv
    let (rest, db) ← PopulateDocumentChanges global_version documents db
    return (first ++ rest, db)

/-- The snapshot version is none in an event that is made up for a document in limbo. -/
def SetLastRemoteSnapshotVersion (db : LevelDb) (remote_version : SnapshotVersion) :
    Except String LevelDb :=
  if remote_version = .None then .ok db
  else if SnapshotVersion.Less remote_version db.last_remote_snapshot_version then
    .error "Watch stream reverted to previous snapshot?? (%s < %s)"
  else .ok { db with last_remote_snapshot_version := remote_version }

/-- The documents of a remote event. -/
def ApplyRemoteEvent (s : LocalStore) (document_updates : DocumentMap)
    (snapshot_version : SnapshotVersion) : Except String (DocumentMap × LocalStore) := do
  let (changed_docs, db) ← PopulateDocumentChanges snapshot_version document_updates s.db
  let db ← SetLastRemoteSnapshotVersion db snapshot_version
  let s := { s with db := db }
  return (← s.GetLocalViewOfDocuments changed_docs, s)

def HandleUserChange (s : LocalStore) (user : AuthUser) :
    Except String (DocumentMap × LocalStore) := do
  let old_batches := s.mutation_queue.AllMutationBatches s.db.toMutationTables
  let mutation_queue := LevelDbMutationQueue.Start ⟨user, 1⟩ s.db.toMutationTables
  let s := { s with mutation_queue := mutation_queue }
  let new_batches := mutation_queue.AllMutationBatches s.db.toMutationTables
  let changed_keys := ((old_batches ++ new_batches).flatMap MutationBatch.mutations).map Mutation.key
  return (← s.GetDocuments changed_keys.toFinset, s)

end LocalStore

section View

variable {s : LocalStore} {batch : MutationBatch} {batches : List MutationBatch} {key : DocID}
  {doc a b : MutableDocument} {m : Mutation}

/-- The cached document with the batches of the user applied to it. -/
def LocalStore.view (s : LocalStore) (key : DocID) : MutableDocument :=
  (s.db.of s.mutation_queue.user_id).foldl
    (fun document batch => batch.ApplyToLocalDocument key document) (s.db.Get key)

theorem applyToLocalDocument_of_notMem (h : key ∉ batch.keys) :
    batch.ApplyToLocalDocument key doc = doc := by
  have hne : ∀ m ∈ batch.mutations, m.key ≠ key := fun m hm hkey =>
    h (List.mem_toFinset.mpr (List.mem_map.mpr ⟨m, hm, hkey⟩))
  unfold MutationBatch.ApplyToLocalDocument
  refine List.foldlRecOn batch.mutations _ (motive := fun d => d = doc) rfl fun d hd m hm => ?_
  rw [if_neg (hne m hm), hd]

/-- Only the batches that change a document count for its local view. -/
theorem foldl_filter_keys (p : MutationBatch → Bool)
    (hp : ∀ batch ∈ batches, p batch = false → key ∉ batch.keys) :
    (batches.filter p).foldl (fun document batch => batch.ApplyToLocalDocument key document) doc =
      batches.foldl (fun document batch => batch.ApplyToLocalDocument key document) doc := by
  induction batches generalizing doc with
  | nil => rfl
  | cons batch batches ih =>
    have hrest := fun b hb => hp b (List.mem_cons_of_mem batch hb)
    rw [List.foldl_cons]
    by_cases hbatch : p batch = true
    · rw [List.filter_cons_of_pos hbatch, List.foldl_cons, ih hrest]
    · have hnot := hp batch List.mem_cons_self (Bool.eq_false_iff.mpr hbatch)
      rw [List.filter_cons_of_neg hbatch, applyToLocalDocument_of_notMem hnot, ih hrest]

/-- A document that is read is its local view. -/
theorem readDocument_eq (h : s.db.Consistent) (key : DocID) :
    s.ReadDocument key = .ok (s.view key) := by
  rw [LocalStore.ReadDocument, LevelDbMutationQueue.AllMutationBatchesAffectingDocumentKey,
    LevelDbMutationQueue.affectingKeys_eq h]
  refine congrArg Except.ok (foldl_filter_keys _ fun batch _ hp hkey => ?_)
  exact of_decide_eq_false hp ⟨key, Finset.mem_singleton_self key, hkey⟩

theorem getLocalViewOfDocuments_eq (h : s.db.Consistent) (docs : DocumentMap) :
    s.GetLocalViewOfDocuments docs = .ok (docs.map fun kv => (kv.1,
      (s.db.of s.mutation_queue.user_id).foldl
        (fun document batch => batch.ApplyToLocalDocument kv.1 document) kv.2)) := by
  rw [LocalStore.GetLocalViewOfDocuments, LevelDbMutationQueue.affectingKeys_eq h]
  refine congrArg Except.ok (List.map_congr_left fun kv hkv => Prod.ext rfl ?_)
  refine foldl_filter_keys _ fun batch _ hp hkey => ?_
  exact of_decide_eq_false hp
    ⟨kv.1, List.mem_toFinset.mpr (List.mem_map_of_mem hkv), hkey⟩

theorem getDocuments_eq (h : s.db.Consistent) (keys : Finset DocID) :
    s.GetDocuments keys = .ok (keys.sort.map fun key => (key, s.view key)) := by
  rw [LocalStore.GetDocuments, getLocalViewOfDocuments_eq h, LevelDb.GetAll, List.map_map]
  rfl

theorem sorted_getDocuments {ids : Finset DocID} {f : DocID → MutableDocument} :
    Sorted (ids.sort.map fun key => (key, f key)) :=
  List.pairwise_map.mpr ids.sortedLT_sort.pairwise

theorem find_getDocuments {ids : Finset DocID} {f : DocID → MutableDocument} :
    find key (ids.sort.map fun key => (key, f key)) = if key ∈ ids then some (f key) else none := by
  split
  · rename_i hkey
    exact find_of_mem sorted_getDocuments
      (List.mem_map.mpr ⟨key, (Finset.mem_sort _).mpr hkey, rfl⟩)
  · rename_i hkey
    rw [find_eq_none, mem_keys]
    simpa using hkey

end View

section CollectionQuery

open LocalStore

variable {s : LocalStore} {batch : MutationBatch} {batches : List MutationBatch} {key : DocID}
  {m : Mutation} {ms : List Mutation} {docs : DocumentMap} {doc a b : MutableDocument}

/-- The documents have the local view of `key` when it is there, and no document for it otherwise. -/
structure Overlays (key : DocID) (docs : DocumentMap) (doc : MutableDocument) : Prop where
  sorted : Sorted docs
  found : (find key docs).filter MutableDocument.is_found_document =
    (some doc).filter MutableDocument.is_found_document

theorem value_of_missing (h : a.is_found_document = false) : a.value = .empty :=
  a.noData fun htype => by simp [MutableDocument.is_found_document, htype] at h

/-- On two documents that are not there a mutation has the same effect, if it has any. -/
theorem applyToLocalView_missing (ha : a.is_found_document = false)
    (hb : b.is_found_document = false) :
    m.ApplyToLocalView a = m.ApplyToLocalView b ∨
      m.ApplyToLocalView a = a ∧ m.ApplyToLocalView b = b := by
  have hvalid : m.precondition.IsValidFor a = m.precondition.IsValidFor b := by
    unfold Precondition.IsValidFor
    rw [ha, hb]
    rfl
  have hversion : Mutation.GetPostMutationVersion a = Mutation.GetPostMutationVersion b := by
    rw [Mutation.GetPostMutationVersion, Mutation.GetPostMutationVersion, ha, hb]
    rfl
  unfold Mutation.ApplyToLocalView
  rw [hvalid]
  split
  · exact Or.inr ⟨rfl, rfl⟩
  · rw [hversion, value_of_missing ha, value_of_missing hb]
    exact Or.inl rfl

theorem filter_found : (some a).filter MutableDocument.is_found_document =
    (some b).filter MutableDocument.is_found_document ↔
      a = b ∨ a.is_found_document = false ∧ b.is_found_document = false := by
  rw [Option.filter_some, Option.filter_some]
  by_cases ha : a.is_found_document = true
  · by_cases hb : b.is_found_document = true
    · simp [ha, hb]
    · have hne : a ≠ b := fun heq => hb (heq ▸ ha)
      simp [ha, hb, hne]
  · by_cases hb : b.is_found_document = true
    · have hne : a ≠ b := fun heq => ha (heq ▸ hb)
      simp [ha, hb, hne]
    · simp [ha, hb]

theorem Overlays.getD (h : Overlays key docs doc) :
    (find key docs).getD .InvalidDocument = doc ∨
      ((find key docs).getD .InvalidDocument).is_found_document = false ∧
        doc.is_found_document = false := by
  rw [← filter_found]
  have hfound := h.found
  cases hfind : find key docs with
  | none =>
    rw [hfind] at hfound
    exact hfound
  | some e =>
    rw [hfind] at hfound
    exact hfound

theorem Overlays.mutation (h : Overlays key docs doc) : Overlays key
    (GetDocumentsMatchingCollectionQuery.step docs m)
    (if m.key = key then m.ApplyToLocalView doc else doc) := by
  unfold GetDocumentsMatchingCollectionQuery.step
  have hsingle : Sorted [(m.key, m.ApplyToLocalView ((find m.key docs).getD .InvalidDocument))] :=
    List.pairwise_singleton _ _
  refine ⟨sorted_merge h.sorted hsingle, ?_⟩
  rw [find_merge hsingle, find_cons]
  by_cases hkey : m.key = key
  · subst hkey
    rw [if_pos rfl, if_pos rfl, Option.some_or, filter_found]
    rcases h.getD with heq | ⟨hmissing, hdoc⟩
    · exact Or.inl (congrArg m.ApplyToLocalView heq)
    · rcases applyToLocalView_missing hmissing hdoc with hsame | ⟨hleft, hright⟩
      · exact Or.inl hsame
      · rw [hleft, hright]
        exact Or.inr ⟨hmissing, hdoc⟩
  · rw [if_neg hkey, if_neg hkey, find_nil, Option.none_or, h.found]

theorem Overlays.apply (h : Overlays key docs doc) (batch : MutationBatch) : Overlays key
    (batch.mutations.foldl GetDocumentsMatchingCollectionQuery.step docs)
    (batch.ApplyToLocalDocument key doc) :=
  List.foldl_rel h fun _ _ _ _ hd => hd.mutation

/-- A document that a batch does not change stays as it is found. -/
theorem find_apply_of_notMem (hdocs : Sorted docs) (h : key ∉ batch.keys) :
    Sorted (batch.mutations.foldl GetDocumentsMatchingCollectionQuery.step docs) ∧
      find key (batch.mutations.foldl GetDocumentsMatchingCollectionQuery.step docs) =
        find key docs := by
  refine List.foldlRecOn batch.mutations _
    (motive := fun d : DocumentMap => Sorted d ∧ find key d = find key docs) ⟨hdocs, rfl⟩
    fun d hd m hm => ?_
  have hne : m.key ≠ key := fun hkey =>
    h (List.mem_toFinset.mpr (List.mem_map.mpr ⟨m, hm, hkey⟩))
  have hsingle : Sorted [(m.key, m.ApplyToLocalView ((find m.key d).getD .InvalidDocument))] :=
    List.pairwise_singleton _ _
  refine ⟨sorted_merge hd.1 hsingle, ?_⟩
  rw [GetDocumentsMatchingCollectionQuery.step, find_merge hsingle, find_cons, if_neg hne, find_nil,
    Option.none_or, hd.2]

theorem sorted_getMatching (db : LevelDb) (since : SnapshotVersion) : Sorted (db.GetMatching since) := by
  unfold LevelDb.GetMatching
  split
  · exact sorted_getDocuments.filter _
  · exact db.documents_ascending.filter _

theorem find_getMatching {db : LevelDb} {since : SnapshotVersion} : find key (db.GetMatching since) =
    if since = .None ∨ key ∈ db.remote_keys since then
      (some (db.Get key)).filter MutableDocument.is_found_document
    else none := by
  unfold LevelDb.GetMatching
  by_cases hsince : since = .None
  · rw [if_neg (not_not.mpr hsince), if_pos (Or.inl hsince),
      find_filter_value db.documents_ascending, LevelDb.Get]
    cases find key db.remote_documents with
    | none => rfl
    | some e => rfl
  · rw [if_pos hsince, LevelDb.GetAllExisting, LevelDb.GetAll,
      find_filter_value sorted_getDocuments, find_getDocuments]
    simp only [hsince, false_or]
    split <;> rfl

/-- The loop of `AddMissingBaseDocuments` adds the documents of the list that are there. -/
theorem find_foldl_found (s : LocalStore) (key : DocID) {l : List DocID} (hdocs : Sorted docs) :
    Sorted ((l.map fun k => (k, s.db.Get k)).foldl AddMissingBaseDocuments.step docs) ∧
      find key ((l.map fun k => (k, s.db.Get k)).foldl AddMissingBaseDocuments.step docs) =
        if key ∈ l ∧ (s.db.Get key).is_found_document then some (s.db.Get key)
        else find key docs := by
  induction l generalizing docs with
  | nil => simp [hdocs]
  | cons k l ih =>
    have hsingle : Sorted [(k, s.db.Get k)] := List.pairwise_singleton _ _
    rw [List.map_cons, List.foldl_cons, AddMissingBaseDocuments.step]
    split
    · rename_i hfound
      obtain ⟨hsorted, hfind⟩ := ih (sorted_merge hdocs hsingle)
      refine ⟨hsorted, ?_⟩
      rw [hfind, find_merge hsingle, find_cons, find_nil]
      by_cases hk : k = key
      · subst hk
        simp [hfound]
      · simp [hk, Ne.symm hk]
    · rename_i hmissing
      obtain ⟨hsorted, hfind⟩ := ih hdocs
      refine ⟨hsorted, ?_⟩
      rw [hfind]
      by_cases hk : k = key
      · subst hk
        simp [hmissing]
      · simp [Ne.symm hk]

/-- A query with the read time sees the cached document: the query is of the whole collection, the
document has been cached since, or one of the batches patches it. -/
def Covered (db : LevelDb) (batches : List MutationBatch) (since : SnapshotVersion) (key : DocID) :
    Prop :=
  since = .None ∨ key ∈ db.remote_keys since ∨
    ∃ batch ∈ batches, ∃ m ∈ batch.mutations, m.is_patch = true ∧ m.key = key

/-- A document that a query with the read time sees is, with the missing base documents, what the
batches are applied to. -/
theorem overlays_base {since : SnapshotVersion} (hcovered : Covered s.db batches since key) :
    Overlays key (s.AddMissingBaseDocuments batches (s.db.GetMatching since)) (s.db.Get key) := by
  unfold LocalStore.AddMissingBaseDocuments
  obtain ⟨hsorted, hfind⟩ := find_foldl_found s key
    (l := (((batches.flatMap MutationBatch.mutations).filter fun mutation => mutation.is_patch &&
      (find mutation.key (s.db.GetMatching since)).isNone).map Mutation.key).toFinset.sort)
    (sorted_getMatching s.db since)
  refine ⟨hsorted, (congrArg (Option.filter _) hfind).trans ?_⟩
  split
  · rfl
  · rename_i hother
    rw [find_getMatching]
    by_cases hseen : since = .None ∨ key ∈ s.db.remote_keys since
    · rw [if_pos hseen, Option.filter_filter]
      simp
    · rw [if_neg hseen]
      obtain ⟨batch, hbatch, m, hm, hpatch, rfl⟩ :=
        (hcovered.resolve_left fun h => hseen (Or.inl h)).resolve_left fun h => hseen (Or.inr h)
      have hmissing : m.key ∈ (((batches.flatMap MutationBatch.mutations).filter fun mutation =>
          mutation.is_patch && (find mutation.key (s.db.GetMatching since)).isNone).map
            Mutation.key).toFinset.sort := by
        rw [Finset.mem_sort, List.mem_toFinset]
        refine List.mem_map.mpr ⟨m, List.mem_filter.mpr ⟨List.mem_flatMap.mpr ⟨batch, hbatch, hm⟩, ?_⟩,
          rfl⟩
        rw [find_getMatching, if_neg hseen, hpatch]
        rfl
      rw [not_and, Bool.not_eq_true] at hother
      rw [Option.filter_some, hother hmissing]
      rfl

/-- A document that a query with the read time does not see is not found where no batch changes it. -/
theorem find_uncovered {since : SnapshotVersion} (hcovered : ¬Covered s.db batches since key)
    (hother : ∀ batch ∈ batches, key ∉ batch.keys) :
    let docs := batches.foldl
      (fun docs batch => batch.mutations.foldl GetDocumentsMatchingCollectionQuery.step docs)
      (s.AddMissingBaseDocuments batches (s.db.GetMatching since))
    Sorted docs ∧ find key docs = none := by
  have hunseen : ¬(since = .None ∨ key ∈ s.db.remote_keys since) :=
    fun h => hcovered (h.imp_right Or.inl)
  have hbase : Sorted (s.AddMissingBaseDocuments batches (s.db.GetMatching since)) ∧
      find key (s.AddMissingBaseDocuments batches (s.db.GetMatching since)) = none := by
    unfold LocalStore.AddMissingBaseDocuments
    refine ⟨(find_foldl_found s key (sorted_getMatching s.db since)).1,
      (find_foldl_found s key (sorted_getMatching s.db since)).2.trans ?_⟩
    rw [if_neg, find_getMatching, if_neg hunseen]
    rintro ⟨hmissing, -⟩
    rw [Finset.mem_sort, List.mem_toFinset] at hmissing
    obtain ⟨m, hm, rfl⟩ := List.mem_map.mp hmissing
    obtain ⟨batch, hbatch, hm⟩ := List.mem_flatMap.mp (List.mem_filter.mp hm).1
    exact hother batch hbatch (List.mem_toFinset.mpr (List.mem_map_of_mem hm))
  refine List.foldlRecOn batches _
    (motive := fun docs : DocumentMap => Sorted docs ∧ find key docs = none) hbase
    fun docs hdocs batch hbatch => ?_
  obtain ⟨hsorted, hfind⟩ := find_apply_of_notMem hdocs.1 (hother batch hbatch)
  exact ⟨hsorted, hfind.trans hdocs.2⟩

/-- A query of the collection in the cache finds the documents whose local view is there and matches,
although it applies the batches to all documents at once, and with a read time none that has not been
cached since and that no batch changes. -/
theorem collectionQuery_view (h : s.db.Consistent) (query : CollectionQuery)
    (since : SnapshotVersion) :
    ∃ docs, s.GetDocumentsMatchingCollectionQuery query since = .ok docs ∧ ∀ key,
      (Covered s.db (s.db.of s.mutation_queue.user_id) since key →
        find key docs = (some (s.view key)).filter (Matches query)) ∧
      (¬Covered s.db (s.db.of s.mutation_queue.user_id) since key →
        (∀ batch ∈ s.db.of s.mutation_queue.user_id, key ∉ batch.keys) → find key docs = none) := by
  rw [GetDocumentsMatchingCollectionQuery, LevelDbMutationQueue.affectingQuery_eq h]
  refine ⟨_, rfl, fun key => ?_⟩
  generalize hbatches : (s.db.of s.mutation_queue.user_id).filter
    (fun batch => decide (batch.keys ≠ ∅)) = batches
  have hkept : ∀ {m : Mutation}, ∀ batch ∈ s.db.of s.mutation_queue.user_id, m ∈ batch.mutations →
      batch ∈ batches := by
    intro m batch hbatch hm
    rw [← hbatches, List.mem_filter, decide_eq_true_iff]
    exact ⟨hbatch, Finset.ne_empty_of_mem (List.mem_toFinset.mpr (List.mem_map_of_mem hm))⟩
  constructor
  · intro hcovered
    have hbase : Covered s.db batches since key := by
      refine hcovered.imp_right (Or.imp_right ?_)
      rintro ⟨batch, hbatch, m, hm, hpatch⟩
      exact ⟨batch, hkept batch hbatch hm, m, hm, hpatch⟩
    have hview : s.view key = batches.foldl
        (fun document batch => batch.ApplyToLocalDocument key document) (s.db.Get key) := by
      rw [← hbatches, foldl_filter_keys]
      · rfl
      · intro batch _ hp hkey
        exact of_decide_eq_false hp (Finset.ne_empty_of_mem hkey)
    have hshown := List.foldl_rel (l := batches) (r := Overlays key) (overlays_base hbase)
      fun batch _ _ _ hd => hd.apply batch
    rw [find_filter_value hshown.sorted, hview]
    have hmatches : ∀ o : Option MutableDocument, o.filter (Matches query) =
        (o.filter MutableDocument.is_found_document).filter fun doc => query doc.value := by
      intro o
      rw [Option.filter_filter]
      rfl
    rw [hmatches, hmatches, hshown.found]
  · intro hcovered hother
    have hbase : ¬Covered s.db batches since key := by
      refine fun h => hcovered (h.imp_right (Or.imp_right ?_))
      rintro ⟨batch, hbatch, m, hm⟩
      exact ⟨batch, List.mem_of_mem_filter (hbatches ▸ hbatch), m, hm⟩
    obtain ⟨hsorted, hfind⟩ := find_uncovered hbase fun batch hbatch =>
      hother batch (List.mem_of_mem_filter (hbatches ▸ hbatch))
    rw [find_filter_value hsorted, hfind]
    rfl

end CollectionQuery

section Write

open LocalStore

variable {s after : LocalStore} {batch : MutationBatch} {key : DocID} {m : Mutation}
  {ms : List Mutation} {docs : DocumentMap} {doc : MutableDocument}

/-- A document as it is handed to the queries after a write. -/
def emitted (doc : MutableDocument) : MutableDocument :=
  if !doc.is_valid_document then MutableDocument.ConvertToNoDocument .None else doc

/-- The loop over the mutations `ms` of a batch. -/
theorem applyToLocalDocumentSet_ok (batch : MutationBatch)
    (hdocs : ∀ m ∈ ms, (find m.key docs).isSome) :
    ∃ out, ms.foldlM (MutationBatch.ApplyToLocalDocumentSet.step batch) docs = .ok out ∧
      (∀ key ∉ ms.map Mutation.key, find key out = find key docs) ∧
      ∀ key, (ms.map Mutation.key).count key = 1 →
        find key out = (find key docs).map fun doc =>
          emitted (batch.ApplyToLocalDocument key doc) := by
  induction ms generalizing docs with
  | nil => exact ⟨docs, rfl, fun _ _ => rfl, fun _ h => absurd h (by simp)⟩
  | cons m ms ih =>
    obtain ⟨document, hdocument⟩ := Option.isSome_iff_exists.mp (hdocs m List.mem_cons_self)
    have hsingle : Sorted [(m.key, emitted (batch.ApplyToLocalDocument m.key document))] :=
      List.pairwise_singleton _ _
    have hfind : ∀ key, find key
        (merge docs [(m.key, emitted (batch.ApplyToLocalDocument m.key document))]) =
          if m.key = key then some (emitted (batch.ApplyToLocalDocument m.key document))
          else find key docs := by
      intro key
      rw [find_merge hsingle, find_cons]
      split <;> simp
    have hthere : ∀ n ∈ ms, (find n.key
        (merge docs [(m.key, emitted (batch.ApplyToLocalDocument m.key document))])).isSome := by
      intro n hn
      rw [hfind]
      split
      · rfl
      · exact hdocs n (List.mem_cons_of_mem _ hn)
    obtain ⟨out, hout, hothers, honce⟩ := ih hthere
    refine ⟨out, ?_, fun key hkey => ?_, fun key hcount => ?_⟩
    · rw [List.foldlM_cons, MutationBatch.ApplyToLocalDocumentSet.step, hdocument]
      exact hout
    · rw [List.map_cons, List.mem_cons, not_or] at hkey
      rw [hothers key hkey.2, hfind, if_neg (Ne.symm hkey.1)]
    · rw [List.map_cons, List.count_cons] at hcount
      by_cases hkey : m.key = key
      · subst hkey
        rw [beq_self_eq_true, if_pos rfl] at hcount
        rw [hothers _ (List.count_eq_zero.mp (by omega)), hfind, if_pos rfl, hdocument,
          Option.map_some]
      · rw [beq_eq_false_iff_ne.mpr hkey, if_neg Bool.false_ne_true, Nat.add_zero] at hcount
        rw [honce key hcount, hfind, if_neg hkey]

theorem bind_ok {α β : Type} {x : Except String α} {f : α → Except String β} {a : α}
    {r : Except String β} (hx : x = .ok a) (hf : f a = r) : (x >>= f) = r := by
  rw [hx]
  exact hf

/-- The store with a batch of the mutations at the end of the user's queue. -/
def LocalStore.enqueued (s : LocalStore) (mutations : List Mutation) : LocalStore :=
  let (_, mutation_queue, tables) :=
    s.mutation_queue.AddMutationBatch mutations s.db.toMutationTables
  { db := { s.db with toMutationTables := tables }, mutation_queue := mutation_queue }

/-- The local view shows a write at once. -/
theorem view_enqueued (hbelow : s.db.Below s.mutation_queue.next_batch_id) (key : DocID) :
    (s.enqueued ms).view key =
      (⟨s.mutation_queue.next_batch_id, ms⟩ : MutationBatch).ApplyToLocalDocument key (s.view key) := by
  have hof : (s.enqueued ms).db.of s.mutation_queue.user_id =
      s.db.of s.mutation_queue.user_id ++ [⟨s.mutation_queue.next_batch_id, ms⟩] :=
    (LevelDbMutationQueue.of_add hbelow _).trans (if_pos rfl)
  rw [LocalStore.view, show (s.enqueued ms).mutation_queue.user_id = s.mutation_queue.user_id from rfl,
    hof, List.foldl_append]
  rfl

theorem writeLocally_ok (h : s.db.Consistent) (hbelow : s.db.Below s.mutation_queue.next_batch_id)
    (ms : List Mutation) :
    ∃ changes, s.WriteLocally ms = .ok (⟨s.mutation_queue.next_batch_id, changes⟩, s.enqueued ms) ∧
      ∀ key, (ms.map Mutation.key).count key = 1 →
        find key changes = some (emitted ((s.enqueued ms).view key)) := by
  have hkey : ∀ {key}, key ∈ ms.map Mutation.key → find key
      ((ms.map Mutation.key).toFinset.sort.map fun key => (key, s.view key)) =
        some (s.view key) :=
    fun hkey => find_getDocuments.trans (if_pos (List.mem_toFinset.mpr hkey))
  have hthere : ∀ m ∈ ms, (find m.key
      ((ms.map Mutation.key).toFinset.sort.map fun key => (key, s.view key))).isSome := by
    intro m hm
    rw [hkey (List.mem_map_of_mem hm)]
    rfl
  obtain ⟨changes, hchanges, -, honce⟩ :=
    applyToLocalDocumentSet_ok ⟨s.mutation_queue.next_batch_id, ms⟩ hthere
  refine ⟨changes, ?_, fun key hcount => ?_⟩
  · rw [WriteLocally]
    exact bind_ok (getDocuments_eq h _) (bind_ok hchanges rfl)
  · have hmem : key ∈ ms.map Mutation.key := List.count_pos_iff.mp (by omega)
    rw [honce key hcount, hkey hmem, Option.map_some, view_enqueued hbelow]

end Write

section Acknowledge

open LocalStore

variable {s : LocalStore} {r : MutationBatchResult} {batch : MutationBatch}
  {batches : List MutationBatch} {key k : DocID} {m : Mutation} {ms : List Mutation}
  {versions : List SnapshotVersion} {a b doc : MutableDocument} {db : LevelDb}

theorem get_add {read_time : SnapshotVersion} : (db.Add k doc read_time).Get key = if k = key then doc else db.Get key := by
  have hsingle : Sorted [(k, doc)] := List.pairwise_singleton _ _
  rw [LevelDb.Get, LevelDb.Add, find_merge hsingle, find_cons]
  split <;> simp [LevelDb.Get]

theorem get_remove : (db.Remove k).Get key = if k = key then .InvalidDocument else db.Get key := by
  rw [LevelDb.Get, LevelDb.Remove, find_filter fun key => decide (key ≠ k)]
  by_cases hk : k = key
  · simp [hk]
  · simp [Ne.symm hk, hk, LevelDb.Get]

/-- What an acknowledgement makes of a cached document. -/
def acknowledged (r : MutationBatchResult) (key : DocID) (doc : MutableDocument) : MutableDocument :=
  match r.doc_versions key with
  | none => doc
  | some ack_version =>
    if SnapshotVersion.Less doc.version ack_version then
      let after := r.batch.ApplyToRemoteDocument key doc r
      if after.is_valid_document then after else doc
    else doc

/-- A fold that changes its value for some entries leaves what each change leaves. -/
theorem foldl_established {α β : Type} {p : α → Prop} [DecidablePred p] {f : β → α → β}
    {P : β → Prop} (hf : ∀ b x, p x → P (f b x)) {l : List α} {b : β}
    (h : P b ∨ ∃ x ∈ l, p x) : P (l.foldl (fun b x => if p x then f b x else b) b) := by
  induction l generalizing b with
  | nil => exact h.resolve_right (by simp)
  | cons x l ih =>
    rw [List.foldl_cons]
    by_cases hx : p x
    · rw [if_pos hx]
      exact ih (Or.inl (hf b x hx))
    · rw [if_neg hx]
      refine ih (h.imp_right ?_)
      rintro ⟨y, hy, hpy⟩
      rcases List.mem_cons.mp hy with rfl | hy
      · exact absurd hpy hx
      · exact ⟨y, hy, hpy⟩

theorem exists_result (h : key ∈ r.batch.keys) :
    ∃ result ∈ r.batch.mutations.zip r.mutation_results, result.1.key = key := by
  obtain ⟨m, hm, hkey⟩ := List.mem_map.mp (List.mem_toFinset.mp h)
  rw [← List.map_fst_zip r.sizes.le] at hm
  obtain ⟨result, hresult, rfl⟩ := List.mem_map.mp hm
  exact ⟨result, hresult, hkey⟩

/-- Every document of the batch has a version in the result. -/
theorem doc_versions_isSome (h : key ∈ r.batch.keys) : (r.doc_versions key).isSome :=
  foldl_established (P := fun o : Option SnapshotVersion => o.isSome = true) (fun _ _ _ => rfl)
    (Or.inr (exists_result h))

/-- What the backend has acknowledged is known in the cache. -/
theorem applyToRemoteDocument_valid (h : key ∈ r.batch.keys) :
    (r.batch.ApplyToRemoteDocument key doc r).is_valid_document = true := by
  refine foldl_established (P := fun doc : MutableDocument => doc.is_valid_document = true)
    (fun doc result _ => ?_) (Or.inr (exists_result h))
  obtain ⟨m, version⟩ := result
  cases m with
  | Set key value precondition => rfl
  | Patch key value mask precondition =>
    rw [Mutation.ApplyToRemoteDocument]
    split <;> rfl
  | Delete key precondition => rfl

theorem acknowledge_step (db : LevelDb) (h : (r.doc_versions k).isSome) :
    ∃ after, ApplyBatchResult.step r db k = .ok after ∧
      after.toMutationTables = db.toMutationTables ∧
      after.last_remote_snapshot_version = db.last_remote_snapshot_version ∧
      ∀ key, after.Get key = if k = key then acknowledged r key (db.Get key) else db.Get key := by
  obtain ⟨v, hv⟩ := Option.isSome_iff_exists.mp h
  unfold ApplyBatchResult.step acknowledged
  rw [hv]
  dsimp only
  by_cases hless : SnapshotVersion.Less (db.Get k).version v
  · rw [if_pos hless]
    by_cases hvalid : (r.batch.ApplyToRemoteDocument k (db.Get k) r).is_valid_document = true
    · rw [if_pos hvalid]
      refine ⟨_, rfl, rfl, rfl, fun key => ?_⟩
      rw [get_add]
      by_cases hk : k = key
      · subst hk
        simp [hv, hless, hvalid]
      · simp [hk]
    · rw [if_neg hvalid]
      refine ⟨_, rfl, rfl, rfl, fun key => ?_⟩
      by_cases hk : k = key
      · subst hk
        simp [hv, hless, hvalid]
      · simp [hk]
  · rw [if_neg hless]
    refine ⟨_, rfl, rfl, rfl, fun key => ?_⟩
    by_cases hk : k = key
    · subst hk
      simp [hv, hless]
    · simp [hk]

/-- The loop over the documents of an acknowledged batch. -/
theorem acknowledge_loop (db : LevelDb) {docs : List DocID} (hdocs : docs.Nodup)
    (hversions : ∀ key ∈ docs, (r.doc_versions key).isSome) :
    ∃ after, docs.foldlM (ApplyBatchResult.step r) db = .ok after ∧
      after.toMutationTables = db.toMutationTables ∧
      after.last_remote_snapshot_version = db.last_remote_snapshot_version ∧
      ∀ key, after.Get key = if key ∈ docs then acknowledged r key (db.Get key) else db.Get key := by
  induction docs generalizing db with
  | nil => exact ⟨db, rfl, rfl, rfl, fun key => by simp⟩
  | cons k docs ih =>
    obtain ⟨hk, hrest⟩ := List.nodup_cons.mp hdocs
    obtain ⟨next, hnext, htables, hlast, hget⟩ :=
      acknowledge_step db (hversions k List.mem_cons_self)
    obtain ⟨after, hafter, htables', hlast', hget'⟩ :=
      ih next hrest fun key hkey => hversions key (List.mem_cons_of_mem _ hkey)
    refine ⟨after, ?_, htables'.trans htables, hlast'.trans hlast, fun key => ?_⟩
    · rw [List.foldlM_cons]
      exact bind_ok hnext hafter
    · rw [hget', hget]
      by_cases hkey : k = key
      · subst hkey
        simp [hk]
      · simp [hkey, Ne.symm hkey]

/-- The store without a batch of its user. -/
def LocalStore.dequeued (s : LocalStore) (batch : MutationBatch) : LocalStore :=
  { s with db := { s.db with
      toMutationTables := s.db.toMutationTables.Delete s.mutation_queue.user_id batch } }

/-- An acknowledged batch of the user leaves the queue, and its documents are cached as acknowledged. -/
theorem acknowledgeBatch_ok (h : s.db.Consistent)
    (hbatch : r.batch ∈ s.db.of s.mutation_queue.user_id) :
    ∃ changes after, s.AcknowledgeBatch r = .ok (changes, after) ∧
      after.mutation_queue = s.mutation_queue ∧
      after.db.toMutationTables =
        s.db.toMutationTables.Delete s.mutation_queue.user_id r.batch ∧
      after.db.last_remote_snapshot_version = s.db.last_remote_snapshot_version ∧
      (∀ key, after.db.Get key =
        if key ∈ r.batch.keys then acknowledged r key (s.db.Get key) else s.db.Get key) ∧
      changes = r.batch.keys.sort.map fun key => (key, after.view key) := by
  obtain ⟨cached, hcached, htables, hlast, hget⟩ := acknowledge_loop (r := r) s.db
    (r.batch.keys.sort_nodup (· ≤ ·))
    fun key hkey => doc_versions_isSome ((Finset.mem_sort _).mp hkey)
  have hremove : s.mutation_queue.RemoveMutationBatch r.batch cached.toMutationTables =
      .ok (s.db.toMutationTables.Delete s.mutation_queue.user_id r.batch) := by
    rw [htables, LevelDbMutationQueue.removeMutationBatch_eq h hbatch]
  have hconsistent := LevelDbMutationQueue.consistent_delete h hbatch
  refine ⟨_, { s with db := { cached with
      toMutationTables := s.db.toMutationTables.Delete s.mutation_queue.user_id r.batch } },
    bind_ok (bind_ok hcached (bind_ok hremove rfl))
      (bind_ok (LevelDbMutationQueue.performConsistencyCheck_ok hconsistent)
        (bind_ok (getDocuments_eq hconsistent _) rfl)), rfl, rfl, hlast, fun key => ?_, rfl⟩
  exact (hget key).trans (if_congr (Finset.mem_sort _) rfl rfl)

theorem rejectBatch_ok (h : s.db.Consistent) (hbatch : batch ∈ s.db.of s.mutation_queue.user_id) :
    s.RejectBatch batch.batch_id =
      .ok (batch.keys.sort.map fun key => (key, (s.dequeued batch).view key), s.dequeued batch) := by
  have hconsistent : (s.dequeued batch).db.Consistent :=
    LevelDbMutationQueue.consistent_delete h hbatch
  rw [RejectBatch, (LevelDbMutationQueue.lookupMutationBatch_iff h).mpr ⟨hbatch, rfl⟩]
  exact bind_ok (LevelDbMutationQueue.removeMutationBatch_eq h hbatch)
    (bind_ok (LevelDbMutationQueue.performConsistencyCheck_ok hconsistent)
      (bind_ok (getDocuments_eq hconsistent _) rfl))

/-- The preconditions of the mutations ask at most whether the document is there. -/
def MutationBatch.Timeless (batch : MutationBatch) : Prop :=
  ∀ m ∈ batch.mutations, ∀ version, m.precondition ≠ .UpdateTime version

/-- Each mutation of the document finds its precondition met when its turn comes. -/
def Met (key : DocID) : List Mutation → MutableDocument → Prop
  | [], _ => True
  | m :: ms, doc =>
    if m.key = key then m.precondition.IsValidFor doc = true ∧ Met key ms (m.ApplyToLocalView doc)
    else Met key ms doc

theorem data_eq_iff : a.data? = b.data? ↔
    a.is_found_document = b.is_found_document ∧ a.value = b.value := by
  unfold MutableDocument.data?
  cases ha : a.is_found_document <;> cases hb : b.is_found_document
  · simp [value_of_missing ha, value_of_missing hb]
  · simp
  · simp
  · simp

theorem isValidFor_eq {p : Precondition} (hp : ∀ version, p ≠ .UpdateTime version)
    (h : a.data? = b.data?) : p.IsValidFor a = p.IsValidFor b := by
  cases p with
  | None => rfl
  | Exists exists_ => rw [Precondition.IsValidFor, Precondition.IsValidFor, (data_eq_iff.mp h).1]
  | UpdateTime version => exact absurd rfl (hp version)

/-- On documents with the same data a mutation leaves the same data. -/
theorem applyToLocalView_data (hm : ∀ version, m.precondition ≠ .UpdateTime version)
    (h : a.data? = b.data?) : (m.ApplyToLocalView a).data? = (m.ApplyToLocalView b).data? := by
  unfold Mutation.ApplyToLocalView
  rw [isValidFor_eq hm h]
  split
  · exact h
  · cases m with
    | Set key value precondition => rfl
    | Patch key value mask precondition =>
      exact data_eq_iff.mpr ⟨rfl, congrArg (fun o => ObjectValue.SetAll o _) (data_eq_iff.mp h).2⟩
    | Delete key precondition => rfl

/-- A mutation whose precondition is met leaves the same data when it is acknowledged as in the local
view. -/
theorem applyToRemoteDocument_data {version : SnapshotVersion}
    (hm : ∀ version, m.precondition ≠ .UpdateTime version)
    (hvalid : m.precondition.IsValidFor b = true) (h : a.data? = b.data?) :
    (m.ApplyToRemoteDocument version a).data? = (m.ApplyToLocalView b).data? := by
  unfold Mutation.ApplyToLocalView
  rw [if_neg (by simp [hvalid])]
  cases m with
  | Set key value precondition => rfl
  | Patch key value mask precondition =>
    have hvalid : precondition.IsValidFor a = true := (isValidFor_eq hm h).trans hvalid
    rw [Mutation.ApplyToRemoteDocument, hvalid]
    exact data_eq_iff.mpr ⟨rfl, congrArg (fun o => ObjectValue.SetAll o _) (data_eq_iff.mp h).2⟩
  | Delete key precondition => rfl

theorem applyToLocalDocument_data (hbatch : batch.Timeless) (h : a.data? = b.data?) :
    (batch.ApplyToLocalDocument key a).data? = (batch.ApplyToLocalDocument key b).data? := by
  refine List.foldl_rel (r := fun a b : MutableDocument => a.data? = b.data?) h
    fun m hm a b hab => ?_
  split
  · exact applyToLocalView_data (hbatch m hm) hab
  · exact hab

/-- An acknowledged batch leaves the data that the local view has of the document. -/
theorem acknowledged_fold (hms : ∀ m ∈ ms, ∀ version, m.precondition ≠ .UpdateTime version)
    (hlength : ms.length = versions.length) (hmet : Met key ms b) (h : a.data? = b.data?) :
    ((ms.zip versions).foldl (fun doc result =>
        if result.1.key = key then result.1.ApplyToRemoteDocument result.2 doc else doc) a).data? =
      (ms.foldl (fun doc mutation =>
        if mutation.key = key then mutation.ApplyToLocalView doc else doc) b).data? := by
  induction ms generalizing versions a b with
  | nil => exact h
  | cons m ms ih =>
    obtain ⟨version, versions, rfl⟩ := List.exists_cons_of_length_eq_add_one hlength.symm
    have hrest := fun n hn => hms n (List.mem_cons_of_mem m hn)
    have hlength : ms.length = versions.length := by simpa using hlength
    rw [List.zip_cons_cons, List.foldl_cons, List.foldl_cons]
    rw [Met] at hmet
    by_cases hkey : m.key = key
    · rw [if_pos hkey] at hmet
      rw [if_pos hkey, if_pos hkey]
      exact ih hrest hlength hmet.2
        (applyToRemoteDocument_data (hms m List.mem_cons_self) hmet.1 h)
    · rw [if_neg hkey] at hmet
      rw [if_neg hkey, if_neg hkey]
      exact ih hrest hlength hmet h

/-- Where an acknowledgement is newer than what is cached, what the batch asks for is there and no
precondition is about a time, the batch goes from the queue into the cache and the data of the local
view stays. -/
theorem acknowledge_view (h : s.db.Consistent)
    (hqueue : s.db.of s.mutation_queue.user_id = r.batch :: batches)
    (htimeless : ∀ batch ∈ r.batch :: batches, batch.Timeless)
    (hnewer : ∀ key ∈ r.batch.keys, ∀ version, r.doc_versions key = some version →
      SnapshotVersion.Less (s.db.Get key).version version)
    (hmet : ∀ key, Met key r.batch.mutations (s.db.Get key)) :
    ∃ changes after, s.AcknowledgeBatch r = .ok (changes, after) ∧
      after.db.of after.mutation_queue.user_id = batches ∧
      ∀ key, (after.view key).data? = (s.view key).data? := by
  obtain ⟨changes, after, hok, hmq, htables, -, hget, -⟩ :=
    acknowledgeBatch_ok h (hqueue ▸ List.mem_cons_self)
  have hof : after.db.of after.mutation_queue.user_id = batches := by
    rw [hmq, htables, LevelDbMutationQueue.of_delete_head h hqueue]
  refine ⟨changes, after, hok, hof, fun key => ?_⟩
  have hrest : ∀ {a b : MutableDocument}, a.data? = b.data? →
      (batches.foldl (fun doc batch => batch.ApplyToLocalDocument key doc) a).data? =
        (batches.foldl (fun doc batch => batch.ApplyToLocalDocument key doc) b).data? := by
    intro a b hab
    refine List.foldl_rel (r := fun a b : MutableDocument => a.data? = b.data?) hab
      fun batch hbatch a b hab => ?_
    exact applyToLocalDocument_data (htimeless batch (List.mem_cons_of_mem _ hbatch)) hab
  rw [LocalStore.view, LocalStore.view, hof, hqueue, List.foldl_cons]
  refine hrest ?_
  rw [hget]
  split
  · rename_i hkey
    obtain ⟨version, hversion⟩ := Option.isSome_iff_exists.mp (doc_versions_isSome hkey)
    unfold acknowledged
    rw [hversion]
    simp only [hnewer key hkey version hversion, applyToRemoteDocument_valid hkey, if_true]
    exact acknowledged_fold (htimeless r.batch List.mem_cons_self) r.sizes (hmet key) rfl
  · rename_i hkey
    rw [applyToLocalDocument_of_notMem hkey]

end Acknowledge

section Remote

open LocalStore

variable {s : LocalStore} {r : MutationBatchResult} {key k : DocID} {a b c doc : MutableDocument}
  {db : LevelDb} {docs : DocumentMap} {kv : DocID × MutableDocument} {version : SnapshotVersion}
  {user : AuthUser}

/-- The document `b` may take the place of `a` in the cache: it is newer, or it is the backend's
document of the version at which `a` has acknowledged mutations. -/
def Supersedes (b a : MutableDocument) : Prop :=
  a.is_valid_document = true → b.is_valid_document = true ∧
    (SnapshotVersion.Less a.version b.version ∨
      a.version = b.version ∧ (a = b ∨ a.has_pending_writes = true))

theorem Supersedes.refl (a : MutableDocument) : Supersedes a a := fun h =>
  ⟨h, Or.inr ⟨rfl, Or.inl rfl⟩⟩

theorem Supersedes.trans (hbc : Supersedes c b) (hab : Supersedes b a) : Supersedes c a := by
  intro ha
  obtain ⟨hb, hab⟩ := hab ha
  obtain ⟨hc, hbc⟩ := hbc hb
  refine ⟨hc, ?_⟩
  rcases hab with hab | ⟨hversion, hstate⟩
  · refine Or.inl ?_
    rcases hbc with hbc | ⟨hbc, -⟩
    · exact lt_trans hab hbc
    · exact hbc ▸ hab
  · rcases hbc with hbc | ⟨hbc, hrest⟩
    · exact Or.inl (hversion ▸ hbc)
    · refine Or.inr ⟨hversion.trans hbc, ?_⟩
      rcases hstate with rfl | hstate
      · exact hrest
      · exact Or.inr hstate

/-- A document to which access was lost. -/
def AccessLost (doc : MutableDocument) : Prop := doc.is_no_document = true ∧ doc.version = .None

instance : DecidablePred AccessLost := fun doc =>
  inferInstanceAs (Decidable (doc.is_no_document = true ∧ doc.version = .None))

/-- What the backend says about documents, at a version unless access to all of them was lost. -/
structure FromBackend (version : SnapshotVersion) (docs : DocumentMap) : Prop where
  valid : ∀ kv ∈ docs, kv.2.is_valid_document = true
  timed : version = .None → ∀ kv ∈ docs, AccessLost kv.2

instance (version : SnapshotVersion) (docs : DocumentMap) : Decidable (FromBackend version docs) :=
  decidable_of_iff ((∀ kv ∈ docs, kv.2.is_valid_document = true) ∧
    (version = .None → ∀ kv ∈ docs, AccessLost kv.2)) ⟨fun h => ⟨h.1, h.2⟩, fun h => ⟨h.1, h.2⟩⟩

theorem populateDocumentChange_ok (db : LevelDb) (hvalid : kv.2.is_valid_document = true)
    (h : version = .None → AccessLost kv.2) :
    ∃ changed after, PopulateDocumentChange version db kv = .ok (changed, after) ∧
      after.toMutationTables = db.toMutationTables ∧
      after.last_remote_snapshot_version = db.last_remote_snapshot_version ∧
      ∀ key, (kv.1 = key → ¬AccessLost kv.2) → Supersedes (after.Get key) (db.Get key) := by
  have hlost : (kv.2.is_no_document && kv.2.version == .None) = true ↔ AccessLost kv.2 := by
    rw [Bool.and_eq_true, beq_iff_eq, AccessLost]
  unfold PopulateDocumentChange
  by_cases hgone : AccessLost kv.2
  · rw [if_pos (hlost.mpr hgone)]
    refine ⟨_, _, rfl, rfl, rfl, fun key hkey => ?_⟩
    rw [get_remove, if_neg fun heq => hkey heq hgone]
    exact .refl _
  · rw [if_neg fun hcond => hgone (hlost.mp hcond)]
    split
    · rename_i hnew
      rw [if_neg fun hversion => hgone (h hversion)]
      refine ⟨_, _, rfl, rfl, rfl, fun key _ => ?_⟩
      rw [get_add]
      split
      · rename_i hkey
        subst hkey
        refine fun hexisting => ⟨hvalid, ?_⟩
        rcases hnew with hinvalid | hless | ⟨hversion, hpending⟩
        · rw [hexisting] at hinvalid
          contradiction
        · exact Or.inl hless
        · exact Or.inr ⟨hversion.symm, Or.inr hpending⟩
      · exact .refl _
    · exact ⟨_, _, rfl, rfl, rfl, fun key _ => .refl _⟩

theorem populateDocumentChanges_ok (db : LevelDb) (h : FromBackend version docs) :
    ∃ changed after, PopulateDocumentChanges version docs db = .ok (changed, after) ∧
      after.toMutationTables = db.toMutationTables ∧
      after.last_remote_snapshot_version = db.last_remote_snapshot_version ∧
      ∀ key, (∀ kv ∈ docs, kv.1 = key → ¬AccessLost kv.2) →
        Supersedes (after.Get key) (db.Get key) := by
  induction docs generalizing db with
  | nil => exact ⟨[], db, rfl, rfl, rfl, fun key _ => .refl _⟩
  | cons kv docs ih =>
    obtain ⟨first, next, hfirst, htables, hlast, hget⟩ :=
      populateDocumentChange_ok db (h.valid kv List.mem_cons_self)
        fun hv => h.timed hv kv List.mem_cons_self
    obtain ⟨rest, after, hrest, htables', hlast', hget'⟩ :=
      ih next ⟨fun e he => h.valid e (List.mem_cons_of_mem _ he),
        fun hv e he => h.timed hv e (List.mem_cons_of_mem _ he)⟩
    refine ⟨first ++ rest, after, bind_ok hfirst (bind_ok hrest rfl), htables'.trans htables,
      hlast'.trans hlast, fun key hkey => ?_⟩
    exact (hget' key fun e he => hkey e (List.mem_cons_of_mem _ he)).trans
      (hget key (hkey kv List.mem_cons_self))

/-- A remote event that is not older than the last one is taken in. -/
theorem applyRemoteEvent_ok (h : s.db.Consistent) (hdocs : FromBackend version docs)
    (hlast : version ≠ .None →
      ¬SnapshotVersion.Less version s.db.last_remote_snapshot_version) :
    ∃ changes after, s.ApplyRemoteEvent docs version = .ok (changes, after) ∧
      after.mutation_queue = s.mutation_queue ∧
      after.db.toMutationTables = s.db.toMutationTables ∧
      ∀ key, (∀ kv ∈ docs, kv.1 = key → ¬AccessLost kv.2) →
        Supersedes (after.db.Get key) (s.db.Get key) := by
  obtain ⟨changed, db, hchanged, htables, hdblast, hget⟩ :=
    populateDocumentChanges_ok s.db hdocs
  have hconsistent : db.Consistent := htables ▸ h
  by_cases hversion : version = .None
  · exact ⟨_, { s with db := db }, bind_ok hchanged (bind_ok (if_pos hversion)
      (bind_ok (getLocalViewOfDocuments_eq (s := { s with db := db }) hconsistent _) rfl)), rfl,
      htables, hget⟩
  · have hnot := hlast hversion
    rw [← hdblast] at hnot
    exact ⟨_, { s with db := { db with last_remote_snapshot_version := version } },
      bind_ok hchanged (bind_ok ((if_neg hversion).trans (if_neg hnot))
        (bind_ok (getLocalViewOfDocuments_eq
          (s := { s with db := { db with last_remote_snapshot_version := version } })
          hconsistent _) rfl)), rfl, htables, hget⟩

/-- An acknowledged document has the version of its last result. -/
theorem applyToRemoteDocument_version (h : r.doc_versions key = some version) :
    (r.batch.ApplyToRemoteDocument key doc r).version = version := by
  have hrel : ∀ v, r.doc_versions key = some v →
      (r.batch.ApplyToRemoteDocument key doc r).version = v := by
    refine List.foldl_rel (r := fun (o : Option SnapshotVersion) (d : MutableDocument) =>
      ∀ v, o = some v → d.version = v) (fun v hv => by contradiction) fun result _ o d hod => ?_
    obtain ⟨m, result⟩ := result
    split
    · intro v hv
      cases hv
      cases m with
      | Set key value precondition => rfl
      | Patch key value mask precondition =>
        rw [Mutation.ApplyToRemoteDocument]
        split <;> rfl
      | Delete key precondition => rfl
    · exact hod
  exact hrel version h

/-- An acknowledgement only replaces what is older. -/
theorem supersedes_acknowledged (key : DocID) (h : key ∈ r.batch.keys) :
    Supersedes (acknowledged r key doc) doc := by
  obtain ⟨version, hversion⟩ := Option.isSome_iff_exists.mp (doc_versions_isSome h)
  unfold acknowledged
  rw [hversion]
  simp only [applyToRemoteDocument_valid h, if_true]
  split
  · rename_i hless
    refine fun _ => ⟨applyToRemoteDocument_valid h, Or.inl ?_⟩
    rw [applyToRemoteDocument_version hversion]
    exact hless
  · exact .refl _

theorem handleUserChange_ok (h : s.db.Consistent) (user : AuthUser) :
    ∃ changes, s.HandleUserChange user =
      .ok (changes, { s with
        mutation_queue := LevelDbMutationQueue.Start ⟨user, 1⟩ s.db.toMutationTables }) :=
  ⟨_, bind_ok (getDocuments_eq (s := { s with
    mutation_queue := LevelDbMutationQueue.Start ⟨user, 1⟩ s.db.toMutationTables }) h _) rfl⟩

end Remote

end VoisinMalin
