import VoisinMalin.Firestore.Delivery

/-! What the app reads in a run: the documents with the writes of the user that are not settled. A write
is seen at once and as long as it is pending, and its acknowledgement changes nothing that is seen. -/

namespace VoisinMalin

open SortedMap EventMachine

namespace FirestoreClient

variable {c after : FirestoreClient} {es : List Event} {db : LevelDb} {user : AuthUser} {key : DocID}
  {ms rest : List Mutation} {m : Mutation} {batch : MutationBatch}
  {version : SnapshotVersion} {results : List SnapshotVersion}

theorem readDocument_sound (h : c.Sound) (key : DocID) :
    c.local_store.ReadDocument key = .ok (c.local_store.view key) :=
  readDocument_eq h.store.consistent key

/-- In every state of a run a query of the whole collection finds the documents that match as they are
read one by one. A query with a read time does so for the documents that have been cached since or that
a pending patch is about, and finds no other document that no pending write is about. -/
theorem queries_agree (h : History db user es c after) (query : LocalStore.CollectionQuery)
    (since : SnapshotVersion) :
    ∃ docs, after.local_store.GetDocumentsMatchingCollectionQuery query since = .ok docs ∧ ∀ key,
      (Covered after.local_store.db (after.local_store.db.of after.current_user) since key →
        ∃ doc, after.local_store.ReadDocument key = .ok doc ∧
          find key docs = (some doc).filter (LocalStore.Matches query)) ∧
      (¬Covered after.local_store.db (after.local_store.db.of after.current_user) since key →
        (∀ batch ∈ after.local_store.db.of after.current_user, key ∉ batch.keys) →
          find key docs = none) := by
  have hafter := h.sound
  obtain ⟨docs, hdocs, hfind⟩ := collectionQuery_view hafter.store.consistent query since
  rw [← hafter.user]
  exact ⟨docs, hdocs, fun key =>
    ⟨fun hcovered => ⟨_, readDocument_sound hafter key, (hfind key).1 hcovered⟩, (hfind key).2⟩⟩

/-- A query for what has been cached since the first write was acknowledged. -/
theorem queries_agree_outcomes : ∃ c after docs doc, History .new "alice" outcomes c after ∧
    after.local_store.GetDocumentsMatchingCollectionQuery (fun _ => true) (1, 0) = .ok docs ∧
      after.local_store.ReadDocument 1 = .ok doc ∧
      find 1 docs = (some doc).filter (LocalStore.Matches fun _ => true) := by
  obtain ⟨c, after, h, -, -, hcached⟩ := exists_outcomes
  obtain ⟨docs, hdocs, hfind⟩ := queries_agree h (fun _ => true) (1, 0)
  obtain ⟨doc, hread, hfound⟩ := (hfind 1).1 (Or.inr (Or.inl hcached))
  exact ⟨c, after, docs, doc, h, hdocs, hread, hfound⟩

/-- A write is read at once, without an answer of the backend. -/
theorem write_shown (h : History db user es c after) (hne : ms ≠ []) (callback : StatusCallback) :
    ∃ id next, after.WriteMutations ms callback = .ok next ∧ ∀ key, ∃ doc,
      after.local_store.ReadDocument key = .ok doc ∧ next.local_store.ReadDocument key =
        .ok ((⟨id, ms⟩ : MutationBatch).ApplyToLocalDocument key doc) := by
  have hafter := h.sound
  obtain ⟨next, hok, hsound, -, hstore⟩ :=
    writeMutations_ok (fun _ => False) hafter ms callback
  refine ⟨after.local_store.mutation_queue.next_batch_id, next, hok, fun key =>
    ⟨_, readDocument_sound hafter key, ?_⟩⟩
  rw [readDocument_sound hsound, hstore hne, view_enqueued hafter.store.below]

theorem write_shown_deletions : ∃ c after next, History .new "alice" deletions c after ∧
    after.WriteMutations [.Delete 3 .None] 3 = .ok next := by
  obtain ⟨c, after, h⟩ := exists_history deletions "alice" deletions_free
  obtain ⟨id, next, hok, -⟩ := write_shown h (List.cons_ne_nil (.Delete 3 .None) []) 3
  exact ⟨c, after, next, h, hok⟩

/-- A write comes behind those of the user. -/
theorem History.write (h : History db user es c after) (hne : ms ≠ []) (callback : StatusCallback) :
    ∃ id next, History db user (es ++ [.WriteMutations ms callback]) c next ∧
      next.local_store.db.Get = after.local_store.db.Get ∧
      next.local_store.db.of next.current_user =
        after.local_store.db.of after.current_user ++ [⟨id, ms⟩] := by
  have hafter := h.sound
  obtain ⟨next, hok, hsound, -, hstore⟩ :=
    writeMutations_ok (fun _ => False) hafter ms callback
  have hstep : step after (.WriteMutations ms callback) = some next := by
    rw [step, handle, hok]
    rfl
  have hrun : run step after [.WriteMutations ms callback] = some next :=
    run_cons.mpr ⟨next, hstep, rfl⟩
  refine ⟨after.local_store.mutation_queue.next_batch_id, next,
    h.append ⟨trivial, fun _ _ => trivial⟩ hrun, ?_, ?_⟩
  · rw [hstore hne]
    rfl
  · rw [← hsound.user, hstore hne, ← hafter.user]
    exact (LevelDbMutationQueue.of_add hafter.store.below _).trans (if_pos rfl)

/-- Alice's first write in a new app. -/
theorem exists_firstWrite (hne : ms ≠ []) : ∃ id c after,
    History .new "alice" [.WriteMutations ms 1] c after ∧
      after.local_store.db.Get = LevelDb.new.Get ∧
      after.local_store.db.of after.current_user = [⟨id, ms⟩] := by
  obtain ⟨c, mid, h⟩ := exists_history [] "alice" (by simp)
  obtain ⟨id, after, h', hget, hqueue⟩ := h.write hne 1
  obtain rfl : c = mid := Option.some.inj h.taken
  have hledger := h.first.2
  have hnone : c.local_store.db.of c.current_user = [] := by
    rw [show c.local_store.db.of c.current_user = c.queue from rfl, queue_pending, hledger]
    rfl
  refine ⟨id, c, after, h', hget.trans (congrArg Ledger.cached hledger), ?_⟩
  rw [hqueue, hnone, List.nil_append]

/-- The local view is what the last pending mutation of the document leaves. -/
theorem view_last {before later : List MutationBatch} (h : c.Sound)
    (hqueue : c.queue = before ++ batch :: later) (hbatch : batch.mutations = ms ++ m :: rest)
    (hrest : ∀ n ∈ rest, n.key ≠ m.key) (hlater : ∀ b ∈ later, m.key ∉ b.keys) :
    ∃ doc, c.local_store.view m.key = m.ApplyToLocalView doc := by
  have hskip : ∀ doc, rest.foldl
      (fun doc n => if n.key = m.key then n.ApplyToLocalView doc else doc) doc = doc := by
    intro doc
    refine List.foldlRecOn rest _ (motive := fun d => d = doc) rfl fun d hd n hn => ?_
    rw [if_neg (hrest n hn), hd]
  have hlast : ∀ doc, later.foldl
      (fun doc b => MutationBatch.ApplyToLocalDocument b m.key doc) doc = doc := by
    intro doc
    refine List.foldlRecOn later _ (motive := fun d => d = doc) rfl fun d hd b hb => ?_
    rw [applyToLocalDocument_of_notMem (hlater b hb), hd]
  refine ⟨ms.foldl (fun doc n => if n.key = m.key then n.ApplyToLocalView doc else doc)
    (before.foldl (fun doc b => MutationBatch.ApplyToLocalDocument b m.key doc)
      (c.local_store.db.Get m.key)), ?_⟩
  rw [LocalStore.view, h.user]
  show List.foldl _ _ c.queue = _
  rw [hqueue, List.foldl_append, List.foldl_cons, hlast, MutationBatch.ApplyToLocalDocument, hbatch,
    List.foldl_append, List.foldl_cons, if_pos rfl, hskip]

/-- As long as a write of the user without a precondition is the last one pending for its document, the
document is read as it was set or deleted, whatever is cached of it. -/
theorem pendingWrite_read {before later : List MutationBatch} (h : History db user es c after)
    (hqueue : after.local_store.db.of after.current_user = before ++ batch :: later)
    (hbatch : batch.mutations = ms ++ m :: rest) (hrest : ∀ n ∈ rest, n.key ≠ m.key)
    (hlater : ∀ b ∈ later, m.key ∉ b.keys) :
    ∃ doc, after.local_store.ReadDocument m.key = .ok doc ∧
      (∀ key value, m = .Set key value .None → doc.data? = some value) ∧
      ∀ key, m = .Delete key .None → doc.data? = none := by
  obtain ⟨doc, hview⟩ := view_last h.sound hqueue hbatch hrest hlater
  refine ⟨_, readDocument_sound h.sound m.key, fun key value hm => ?_, fun key hm => ?_⟩
  · subst hm
    rw [hview]
    rfl
  · subst hm
    rw [hview]
    rfl

theorem pendingWrite_read_alice : ∃ c after doc,
    History .new "alice" [.WriteMutations [.Set 1 .empty .None] 1] c after ∧
      after.local_store.ReadDocument 1 = .ok doc ∧ doc.data? = some .empty := by
  obtain ⟨id, c, after, h, -, hqueue⟩ := exists_firstWrite (List.cons_ne_nil (.Set 1 .empty .None) [])
  have hsplit : after.local_store.db.of after.current_user =
    [] ++ ⟨id, [] ++ .Set 1 .empty .None :: []⟩ :: [] := hqueue
  obtain ⟨doc, hread, hset, -⟩ := pendingWrite_read h hsplit rfl (by simp) (by simp)
  exact ⟨c, after, doc, h, hread, hset 1 .empty rfl⟩

theorem doc_versions_mem {r : MutationBatchResult} (h : r.doc_versions key = some version) :
    version ∈ r.mutation_results := by
  have hall : ∀ v, r.doc_versions key = some v → v ∈ r.mutation_results := by
    refine List.foldlRecOn _ _ (motive := fun o : Option SnapshotVersion =>
      ∀ v, o = some v → v ∈ r.mutation_results) (fun v hv => by contradiction)
      fun o ho result hresult v hv => ?_
    split at hv
    · cases hv
      exact (List.of_mem_zip hresult).2
    · exact ho v hv
  exact hall version h

/-- Where the results of the first write are newer than what is cached, its preconditions are met there
and no pending one is about a time, the acknowledgement takes the write out of the queue and leaves
the data of every document that is read. -/
theorem acknowledgement_unseen (h : History db user es c after)
    (hoccurs : after.Occurs (.OnStreamRead (.read version results)))
    (hhandshake : after.write_stream.handshake_complete = true)
    (htimeless : ∀ batch ∈ after.local_store.db.of after.current_user, batch.Timeless)
    (hnewer : ∀ batch ∈ (after.local_store.db.of after.current_user).head?, ∀ key ∈ batch.keys,
      ∀ v ∈ results, SnapshotVersion.Less (after.local_store.db.Get key).version v)
    (hmet : ∀ batch ∈ (after.local_store.db.of after.current_user).head?, ∀ key,
      Met key batch.mutations (after.local_store.db.Get key)) :
    ∃ next, after.OnStreamRead (.read version results) = .ok next ∧
      next.local_store.db.of after.current_user =
        (after.local_store.db.of after.current_user).tail ∧
      ∀ key, ∃ doc doc', after.local_store.ReadDocument key = .ok doc ∧
        next.local_store.ReadDocument key = .ok doc' ∧ doc'.data? = doc.data? := by
  have hafter := h.sound
  obtain ⟨⟨k, hcall⟩, hresults⟩ := hoccurs
  obtain ⟨next, hok, hsound, -, huser, -, -, r, changes, batches, hqueue, -, hmutations, hack⟩ :=
    onWriteRead_ok version (fun _ => False) hafter hcall hhandshake
      fun batch hbatch => hresults batch hbatch hhandshake
  have hmine : after.local_store.db.of after.local_store.mutation_queue.user_id =
      r.batch :: batches := by
    rw [hafter.user]
    exact hqueue
  have hhead : r.batch ∈ (after.local_store.db.of after.current_user).head? := by
    rw [← hafter.user, hmine]
    rfl
  obtain ⟨changes', store, hack', hrest, hview⟩ := acknowledge_view hafter.store.consistent hmine
    (fun batch hbatch => htimeless batch (by rw [← hafter.user, hmine]; exact hbatch))
    (fun key hkey v hv => hnewer r.batch hhead key hkey v (hmutations ▸ doc_versions_mem hv))
    (fun key => hmet r.batch hhead key)
  obtain ⟨-, rfl⟩ := Prod.mk.inj (Except.ok.inj (hack'.symm.trans hack))
  refine ⟨next, hok, ?_, fun key => ⟨_, _, readDocument_sound hafter key,
    readDocument_sound hsound key, hview key⟩⟩
  rw [hsound.user, huser] at hrest
  rw [hrest, ← hafter.user, hmine, List.tail_cons]

/-- The acknowledgement of Alice's first write. -/
theorem acknowledgement_unseen_alice : ∃ es c after next, History .new "alice" es c after ∧
    after.OnStreamRead (.read (1, 0) [(1, 0)]) = .ok next ∧
      ∃ doc doc', after.local_store.ReadDocument 1 = .ok doc ∧
        next.local_store.ReadDocument 1 = .ok doc' ∧ doc'.data? = doc.data? := by
  obtain ⟨id, c, mid, h, hget, hqueue⟩ :=
    exists_firstWrite (List.cons_ne_nil (.Set 1 .empty .None) [])
  have hmid := h.sound
  have hnetwork : mid.is_network_enabled = true := h.session.2
  have hpipeline : mid.write_pipeline = [⟨id, [.Set 1 .empty .None]⟩] := by
    rw [hmid.pipeline, due, if_pos hnetwork, queue, hqueue]
    rfl
  have hstarted := hmid.stream.started (by simp [hpipeline])
  obtain ⟨es, w, hoffered, hrun, hhandshake⟩ := exists_handshake hmid hstarted
  have h' := h.append (hoffered.imp fun _ _ he => he.1) hrun
  have hcalls := h'.sound.stream.calls
  rw [if_pos (h'.sound.stream.handshake hhandshake), if_pos hhandshake] at hcalls
  have hoccurs : ({ mid with write_stream := w } : FirestoreClient).Occurs
      (.OnStreamRead (.read (1, 0) [(1, 0)])) := by
    refine ⟨⟨0, by rw [hcalls, hpipeline]; rfl⟩, fun batch hbatch _ => ?_⟩
    rw [hpipeline, List.head?_cons, Option.mem_some_iff] at hbatch
    rw [← hbatch]
    rfl
  have hfirst : ∀ batch ∈ mid.local_store.db.of mid.current_user,
      batch.mutations = [.Set 1 .empty .None] := by
    intro batch hbatch
    rw [hqueue] at hbatch
    rw [List.mem_singleton.mp hbatch]
  have htimeless : ∀ batch ∈ mid.local_store.db.of mid.current_user, batch.Timeless := by
    intro batch hbatch m hm
    rw [hfirst batch hbatch, List.mem_singleton] at hm
    rw [hm]
    exact fun version => Precondition.noConfusion
  have hnewer : ∀ batch ∈ (mid.local_store.db.of mid.current_user).head?, ∀ key ∈ batch.keys,
      ∀ v ∈ [((1, 0) : SnapshotVersion)],
        SnapshotVersion.Less (mid.local_store.db.Get key).version v := by
    intro batch _ key _ v hv
    rw [List.mem_singleton.mp hv, hget]
    show SnapshotVersion.Less (0, 0) (1, 0)
    decide
  have hmet : ∀ batch ∈ (mid.local_store.db.of mid.current_user).head?, ∀ key,
      Met key batch.mutations (mid.local_store.db.Get key) := by
    intro batch hbatch key
    rw [hfirst batch (List.mem_of_mem_head? hbatch), Met]
    split
    · exact ⟨rfl, trivial⟩
    · trivial
  obtain ⟨next, hok, -, hreads⟩ :=
    acknowledgement_unseen h' hoccurs hhandshake htimeless hnewer hmet
  exact ⟨_, c, _, next, h', hok, hreads 1⟩

end FirestoreClient

end VoisinMalin
