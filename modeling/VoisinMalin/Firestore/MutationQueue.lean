import VoisinMalin.Firestore.Mutation
import Mathlib.Data.Prod.Lex
import Mathlib.Data.Int.Order.Basic

/-! The mutation queue that the Firestore SDK keeps in LevelDB: the batches of every user by their batch
ID, and an index of the documents that they change. A queue gives out ascending batch IDs and finds
the batches of its user again in the order in which they were added. -/

namespace VoisinMalin

open SortedMap

/-- A uid, or the empty text without an account. -/
abbrev AuthUser := String

abbrev BatchId := ℤ

def kBatchIdUnknown : BatchId := -1

/-- A batch of mutations without transforms, which have no base mutations and no local write time. -/
structure MutationBatch where
  batch_id : BatchId
  mutations : List Mutation

def MutationBatch.keys (batch : MutationBatch) : Finset DocID :=
  (batch.mutations.map Mutation.key).toFinset

/-- The rows are ordered by the user and then by the batch ID. -/
abbrev LevelDbMutationKey := AuthUser ×ₗ BatchId

namespace LevelDbMutationKey

def Key (user_id : AuthUser) (batch_id : BatchId) : LevelDbMutationKey := toLex (user_id, batch_id)

def user_id (key : LevelDbMutationKey) : AuthUser := (ofLex key).1

def batch_id (key : LevelDbMutationKey) : BatchId := (ofLex key).2

variable {a b : LevelDbMutationKey} {user : AuthUser} {id : BatchId}

@[simp] theorem user_id_key : (Key user id).user_id = user := rfl

@[simp] theorem batch_id_key : (Key user id).batch_id = id := rfl

theorem eq_key : a = Key user id ↔ a.user_id = user ∧ a.batch_id = id := by
  constructor
  · rintro rfl
    exact ⟨rfl, rfl⟩
  · rintro ⟨rfl, rfl⟩
    rfl

theorem user_id_le (h : a < b) : a.user_id ≤ b.user_id := Prod.Lex.monotone_fst _ _ h.le

theorem lt_iff : a < b ↔
    a.user_id < b.user_id ∨ a.user_id = b.user_id ∧ a.batch_id < b.batch_id :=
  Prod.Lex.toLex_lt_toLex

theorem le_iff : a ≤ b ↔
    a.user_id < b.user_id ∨ a.user_id = b.user_id ∧ a.batch_id ≤ b.batch_id :=
  Prod.Lex.toLex_le_toLex

end LevelDbMutationKey

abbrev MutationRows := List (LevelDbMutationKey × MutationBatch)

/-- The table of the batches and its index by user, document and batch ID. -/
structure MutationTables where
  mutations : MutationRows
  document_mutations : Finset (AuthUser × DocID × BatchId)
  ascending : Sorted mutations

/-- The deletion of a batch's row and of its rows in the index. -/
def MutationTables.Delete (db : MutationTables) (user_id : AuthUser) (batch : MutationBatch) :
    MutationTables where
  mutations := db.mutations.filter fun row =>
    decide (row.1 ≠ LevelDbMutationKey.Key user_id batch.batch_id)
  document_mutations := db.document_mutations \
    batch.keys.image fun document => (user_id, document, batch.batch_id)
  ascending := db.ascending.filter _

/-- The queue of a user. -/
structure LevelDbMutationQueue where
  user_id : AuthUser
  next_batch_id : BatchId

def LoadNextBatchIdFromDb.loop (max_batch_id : BatchId) : MutationRows → BatchId
  | [] => max_batch_id
  | row :: rows =>
    let next_user_id := row.1.user_id
    -- `Seek` to the end of the user's rows and `Prev`, to the last of them.
    let last := (rows.takeWhile fun r => decide (r.1.user_id ≤ next_user_id)).getLastD row
    loop (max max_batch_id last.1.batch_id)
      (rows.dropWhile fun r => decide (r.1.user_id ≤ next_user_id))
termination_by rows => rows.length
decreasing_by
  have := List.length_dropWhile_le (fun r : LevelDbMutationKey × MutationBatch =>
    decide (r.1.user_id ≤ row.1.user_id)) rows
  simp only [List.length_cons]
  omega

def LoadNextBatchIdFromDb (db : MutationTables) : BatchId :=
  LoadNextBatchIdFromDb.loop 0 db.mutations + 1

namespace LevelDbMutationQueue

def Start (q : LevelDbMutationQueue) (db : MutationTables) : LevelDbMutationQueue :=
  { q with next_batch_id := LoadNextBatchIdFromDb db }

def IsEmpty (q : LevelDbMutationQueue) (db : MutationTables) : Bool :=
  match (db.mutations.dropWhile fun row => decide (row.1.user_id < q.user_id)).head? with
  | some row => row.1.user_id != q.user_id
  | none => true

def AllMutationBatches (q : LevelDbMutationQueue) (db : MutationTables) : List MutationBatch :=
  ((db.mutations.dropWhile fun row => decide (row.1.user_id < q.user_id)).takeWhile
    fun row => decide (row.1.user_id = q.user_id)).map Prod.snd

def AddMutationBatch (q : LevelDbMutationQueue) (mutations : List Mutation) (db : MutationTables) :
    MutationBatch × LevelDbMutationQueue × MutationTables :=
  let batch : MutationBatch := ⟨q.next_batch_id, mutations⟩
  let key := LevelDbMutationKey.Key q.user_id q.next_batch_id
  (batch, { q with next_batch_id := q.next_batch_id + 1 },
    { mutations := merge db.mutations [(key, batch)]
      document_mutations := db.document_mutations ∪
        batch.keys.image fun document => (q.user_id, document, q.next_batch_id)
      ascending := sorted_merge db.ascending (List.pairwise_singleton _ _) })

def RemoveMutationBatch (q : LevelDbMutationQueue) (batch : MutationBatch) (db : MutationTables) :
    Except String MutationTables :=
  let key := LevelDbMutationKey.Key q.user_id batch.batch_id
  match (seek key db.mutations).head? with
  | none => .error "Mutation batch %s did not exist"
  | some row =>
    if row.1 ≠ key then .error "Mutation batch %s not found; found %s"
    else .ok (db.Delete q.user_id batch)

def LookupMutationBatch (q : LevelDbMutationQueue) (batch_id : BatchId) (db : MutationTables) :
    Option MutationBatch :=
  find (LevelDbMutationKey.Key q.user_id batch_id) db.mutations

def NextMutationBatchAfterBatchId (q : LevelDbMutationQueue) (batch_id : BatchId)
    (db : MutationTables) : Option MutationBatch :=
  match (seek (LevelDbMutationKey.Key q.user_id (batch_id + 1)) db.mutations).head? with
  | none => none
  | some row => if row.1.user_id ≠ q.user_id then none else some row.2

/-- The batches in the order of their IDs. -/
def AllMutationBatchesWithIds (q : LevelDbMutationQueue) (batch_ids : Finset BatchId)
    (db : MutationTables) : Except String (List MutationBatch) :=
  batch_ids.sort.mapM fun batch_id =>
    let mutation_key := LevelDbMutationKey.Key q.user_id batch_id
    match (seek mutation_key db.mutations).head? with
    | some row => if row.1 = mutation_key then .ok row.2 else .error dangling
    | none => .error dangling
where
  dangling := "Dangling document-mutation reference found: Missing batch %s; seeking there found %s"

def AllMutationBatchesAffectingDocumentKeys (q : LevelDbMutationQueue) (document_keys : Finset DocID)
    (db : MutationTables) : Except String (List MutationBatch) :=
  let rows := db.document_mutations.filter fun row => row.1 = q.user_id ∧ row.2.1 ∈ document_keys
  q.AllMutationBatchesWithIds (rows.image fun row => row.2.2) db

def AllMutationBatchesAffectingDocumentKey (q : LevelDbMutationQueue) (key : DocID)
    (db : MutationTables) : Except String (List MutationBatch) :=
  q.AllMutationBatchesAffectingDocumentKeys {key} db

/-- The batches for a query of the collection, which holds all the documents of the index. -/
def AllMutationBatchesAffectingQuery (q : LevelDbMutationQueue) (db : MutationTables) :
    Except String (List MutationBatch) :=
  let rows := db.document_mutations.filter fun row => row.1 = q.user_id
  q.AllMutationBatchesWithIds (rows.image fun row => row.2.2) db

def PerformConsistencyCheck (q : LevelDbMutationQueue) (db : MutationTables) : Except String Unit :=
  if !q.IsEmpty db then .ok ()
  else if ∃ row ∈ db.document_mutations, row.1 = q.user_id then
    .error ("Document leak -- detected dangling mutation references when queue is empty. " ++
      "Dangling keys: %s")
  else .ok ()

end LevelDbMutationQueue

namespace MutationTables

/-- The batches of a user in the order of their IDs. -/
def of (db : MutationTables) (user : AuthUser) : List MutationBatch :=
  (db.mutations.filter fun row => decide (row.1.user_id = user)).map Prod.snd

/-- Each row has its batch's ID, and the index has the documents of the batches. -/
structure Consistent (db : MutationTables) : Prop where
  ids : ∀ row ∈ db.mutations, row.2.batch_id = row.1.batch_id
  index : ∀ user document id, (user, document, id) ∈ db.document_mutations ↔
    ∃ batch ∈ db.of user, batch.batch_id = id ∧ document ∈ batch.keys

/-- No batch has an ID from `id` on. -/
def Below (db : MutationTables) (id : BatchId) : Prop := ∀ row ∈ db.mutations, row.1.batch_id < id

/-- The batch IDs start from one. -/
def Positive (db : MutationTables) : Prop := ∀ row ∈ db.mutations, 0 < row.1.batch_id

variable {db : MutationTables} {user : AuthUser} {batch : MutationBatch} {id : BatchId}

theorem mem_of (h : db.Consistent) :
    batch ∈ db.of user ↔ (LevelDbMutationKey.Key user batch.batch_id, batch) ∈ db.mutations := by
  simp only [of, List.mem_map, List.mem_filter, decide_eq_true_eq]
  constructor
  · rintro ⟨row, ⟨hrow, huser⟩, rfl⟩
    rwa [h.ids row hrow, ← huser]
  · exact fun hrow => ⟨_, ⟨hrow, rfl⟩, rfl⟩

theorem of_ascending (h : db.Consistent) (user : AuthUser) :
    (db.of user).Pairwise fun a b => a.batch_id < b.batch_id := by
  refine List.pairwise_map.mpr ?_
  refine (db.ascending.filter _).imp_of_mem fun {a b} ha hb hlt => ?_
  obtain ⟨ha, hausr⟩ := List.mem_filter.mp ha
  obtain ⟨hb, hbusr⟩ := List.mem_filter.mp hb
  rw [h.ids a ha, h.ids b hb]
  rcases LevelDbMutationKey.lt_iff.mp hlt with huser | ⟨-, hid⟩
  · rw [of_decide_eq_true hausr, of_decide_eq_true hbusr] at huser
    exact absurd huser (lt_irrefl _)
  · exact hid

/-- Two batches of a user with one ID are the same. -/
theorem of_unique (h : db.Consistent) {a b : MutationBatch} (ha : a ∈ db.of user)
    (hb : b ∈ db.of user) (hid : a.batch_id = b.batch_id) : a = b := by
  have ha := find_of_mem db.ascending ((mem_of h).mp ha)
  have hb := find_of_mem db.ascending ((mem_of h).mp hb)
  rw [hid, hb] at ha
  exact (Option.some.inj ha).symm

end MutationTables

namespace LoadNextBatchIdFromDb

theorem le_loop {m : BatchId} {rows : MutationRows} : m ≤ loop m rows := by
  fun_induction loop m rows with
  | case1 m => exact le_rfl
  | case2 m row rows user last ih => exact le_trans (le_max_left _ _) ih

theorem id_le_loop {m : BatchId} {rows : MutationRows} (h : Sorted rows)
    {r : LevelDbMutationKey × MutationBatch} (hr : r ∈ rows) : r.1.batch_id ≤ loop m rows := by
  fun_induction loop m rows with
  | case1 m => contradiction
  | case2 m row rows user last ih =>
    have hmine : Sorted (row :: rows.takeWhile fun r => decide (r.1.user_id ≤ user)) :=
      List.Pairwise.sublist ((List.takeWhile_sublist _).cons_cons row) h
    have huser : ∀ a ∈ row :: rows.takeWhile fun r => decide (r.1.user_id ≤ user),
        a.1.user_id = user := by
      intro a ha
      rcases List.mem_cons.mp ha with rfl | ha
      · rfl
      · have hle := LevelDbMutationKey.user_id_le ((List.pairwise_cons.mp hmine).1 a ha)
        have hlast := List.mem_takeWhile_imp ha
        exact le_antisymm (of_decide_eq_true hlast) hle
    rw [← List.takeWhile_append_dropWhile (p := fun r => decide (r.1.user_id ≤ user)) (l := rows),
      ← List.cons_append, List.mem_append] at hr
    rcases hr with hr | hr
    · refine le_trans ?_ (le_trans (le_max_right m _) le_loop)
      rcases eq_or_lt_getLastD hmine hr with heq | hlt
      · exact le_of_eq (congrArg (fun a => a.1.batch_id) heq)
      · rcases LevelDbMutationKey.lt_iff.mp hlt with hlt | ⟨-, hid⟩
        · rw [huser r hr, huser _ List.getLastD_mem_cons] at hlt
          exact absurd hlt (lt_irrefl user)
        · exact hid.le
    · exact ih ((List.pairwise_cons.mp h).2.sublist (List.dropWhile_sublist _)) hr

end LoadNextBatchIdFromDb

namespace LevelDbMutationQueue

open MutationTables

variable {q : LevelDbMutationQueue} {db : MutationTables} {batch : MutationBatch}
  {mutations : List Mutation} {user : AuthUser} {id : BatchId}

theorem start_below : db.Below (q.Start db).next_batch_id := fun _ hrow =>
  Int.lt_add_one_of_le (LoadNextBatchIdFromDb.id_le_loop db.ascending hrow)

theorem start_positive : 0 < (q.Start db).next_batch_id :=
  Int.lt_add_one_of_le LoadNextBatchIdFromDb.le_loop

theorem allMutationBatches_eq : q.AllMutationBatches db = db.of q.user_id := by
  unfold AllMutationBatches MutationTables.of
  have hle : db.mutations.Pairwise fun a b => a.1.user_id ≤ b.1.user_id :=
    db.ascending.imp LevelDbMutationKey.user_id_le
  rw [dropWhile_eq_filter, takeWhile_eq_filter, List.filter_filter]
  · congr 1
    refine List.filter_congr fun row _ => ?_
    by_cases huser : row.1.user_id = q.user_id <;> simp [huser]
  · refine (hle.filter _).imp_of_mem fun {a b} ha _ hab hb => ?_
    have ha := (List.mem_filter.mp ha).2
    rw [← decide_not, decide_eq_true_eq, not_lt] at ha
    rw [decide_eq_true_eq] at hb ⊢
    exact le_antisymm (hb ▸ hab) ha
  · refine hle.imp fun hab hb => ?_
    rw [decide_eq_true_eq] at hb ⊢
    exact lt_of_le_of_lt hab hb

theorem lookupMutationBatch_iff (h : db.Consistent) :
    q.LookupMutationBatch id db = some batch ↔ batch ∈ db.of q.user_id ∧ batch.batch_id = id := by
  rw [LookupMutationBatch, mem_of h]
  constructor
  · intro hfind
    have hrow := mem_of_find hfind
    have hid : batch.batch_id = id := h.ids _ hrow
    exact ⟨hid ▸ hrow, hid⟩
  · rintro ⟨hrow, rfl⟩
    exact find_of_mem db.ascending hrow

/-- The scan for the next batch finds the first one of the user after `id`. -/
theorem nextMutationBatch_eq (h : db.Consistent) : q.NextMutationBatchAfterBatchId id db =
    (db.of q.user_id).find? fun batch => decide (id < batch.batch_id) := by
  rw [NextMutationBatchAfterBatchId, head?_seek db.ascending, MutationTables.of]
  have hids := h.ids
  have hsorted := db.ascending
  generalize db.mutations = rows at hids hsorted ⊢
  induction rows with
  | nil => rfl
  | cons row rows ih =>
    obtain ⟨hfirst, hrest⟩ := List.pairwise_cons.mp hsorted
    have hid := hids row List.mem_cons_self
    specialize ih (fun r hr => hids r (List.mem_cons_of_mem _ hr)) hrest
    by_cases hkey : LevelDbMutationKey.Key q.user_id (id + 1) ≤ row.1
    · rw [List.find?_cons_of_pos (by simpa using hkey)]
      rcases LevelDbMutationKey.le_iff.mp hkey with hlt | ⟨huser, hle⟩
      · have hnone : ∀ r ∈ row :: rows, ¬r.1.user_id = q.user_id := by
          intro r hr heq
          rcases List.mem_cons.mp hr with rfl | hr
          · exact absurd hlt (heq ▸ lt_irrefl q.user_id)
          · have hle := LevelDbMutationKey.user_id_le (hfirst r hr)
            exact absurd (lt_of_lt_of_le hlt hle) (heq ▸ lt_irrefl q.user_id)
        rw [List.filter_eq_nil_iff.mpr fun r hr => by simpa using hnone r hr]
        simp only [if_pos (hnone row List.mem_cons_self)]
        rfl
      · have huser : row.1.user_id = q.user_id := huser.symm
        rw [List.filter_cons_of_pos (by simpa using huser), List.map_cons, List.find?_cons_of_pos]
        · exact if_neg (not_not_intro huser)
        · have hlt : id < row.1.batch_id := Int.add_one_le_iff.mp hle
          simpa [hid] using hlt
    · rw [List.find?_cons_of_neg (by simpa using hkey), ih]
      by_cases huser : row.1.user_id = q.user_id
      · rw [List.filter_cons_of_pos (by simpa using huser), List.map_cons, List.find?_cons_of_neg]
        have hnot : ¬id < row.1.batch_id := fun hlt => hkey
          (LevelDbMutationKey.le_iff.mpr (Or.inr ⟨huser.symm, Int.add_one_le_iff.mpr hlt⟩))
        simpa [hid] using hnot
      · rw [List.filter_cons_of_neg (by simpa using huser)]

/-- The IDs of batches that are there give these batches back, in their order. -/
theorem allMutationBatchesWithIds_eq (h : db.Consistent) (p : MutationBatch → Bool) :
    q.AllMutationBatchesWithIds
      (((db.of q.user_id).filter p).map MutationBatch.batch_id).toFinset db =
        .ok ((db.of q.user_id).filter p) := by
  have hlt := List.pairwise_map.mpr ((of_ascending h q.user_id).filter p)
  have hnodup := hlt.imp (fun hlt => ne_of_lt hlt)
  rw [AllMutationBatchesWithIds, (List.toFinset_sort _ hnodup).mpr (hlt.imp le_of_lt)]
  have hall : ∀ batch ∈ (db.of q.user_id).filter p, batch ∈ db.of q.user_id :=
    fun batch hbatch => (List.mem_filter.mp hbatch).1
  generalize (db.of q.user_id).filter p = batches at hall ⊢
  induction batches with
  | nil => rfl
  | cons batch batches ih =>
    have hrow := (mem_of h).mp (hall batch List.mem_cons_self)
    rw [List.map_cons, List.mapM_cons, ih fun b hb => hall b (List.mem_cons_of_mem _ hb)]
    simp only [head?_seek_of_mem db.ascending hrow]
    rfl

/-- The index leads to the batches of the user that change one of the documents. -/
theorem affectingKeys_eq (h : db.Consistent) (keys : Finset DocID) :
    q.AllMutationBatchesAffectingDocumentKeys keys db =
      .ok ((db.of q.user_id).filter fun batch => decide (∃ key ∈ keys, key ∈ batch.keys)) := by
  rw [AllMutationBatchesAffectingDocumentKeys, ← allMutationBatchesWithIds_eq h]
  congr 1
  ext id
  simp only [Finset.mem_image, Finset.mem_filter, List.mem_toFinset, List.mem_map, List.mem_filter,
    decide_eq_true_eq]
  constructor
  · rintro ⟨⟨user, key, _⟩, ⟨hrow, rfl, hkey⟩, rfl⟩
    obtain ⟨batch, hbatch, hid, hmem⟩ := (h.index _ _ _).mp hrow
    exact ⟨batch, ⟨hbatch, key, hkey, hmem⟩, hid⟩
  · rintro ⟨batch, ⟨hbatch, key, hkey, hmem⟩, rfl⟩
    exact ⟨(q.user_id, key, batch.batch_id), ⟨(h.index _ _ _).mpr ⟨batch, hbatch, rfl, hmem⟩, rfl,
      hkey⟩, rfl⟩

theorem affectingQuery_eq (h : db.Consistent) : q.AllMutationBatchesAffectingQuery db =
    .ok ((db.of q.user_id).filter fun batch => decide (batch.keys ≠ ∅)) := by
  rw [AllMutationBatchesAffectingQuery, ← allMutationBatchesWithIds_eq h]
  congr 1
  ext id
  simp only [Finset.mem_image, Finset.mem_filter, List.mem_toFinset, List.mem_map, List.mem_filter,
    decide_eq_true_eq, ← Finset.nonempty_iff_ne_empty]
  constructor
  · rintro ⟨⟨user, key, _⟩, ⟨hrow, rfl⟩, rfl⟩
    obtain ⟨batch, hbatch, hid, hmem⟩ := (h.index _ _ _).mp hrow
    exact ⟨batch, ⟨hbatch, key, hmem⟩, hid⟩
  · rintro ⟨batch, ⟨hbatch, key, hmem⟩, rfl⟩
    exact ⟨(q.user_id, key, batch.batch_id), ⟨(h.index _ _ _).mpr ⟨batch, hbatch, rfl, hmem⟩, rfl⟩,
      rfl⟩

theorem below_add (h : db.Below q.next_batch_id) :
    (q.AddMutationBatch mutations db).2.2.Below (q.next_batch_id + 1) := fun row hrow =>
  forall_merge (P := fun row => row.1.batch_id < q.next_batch_id + 1)
    (fun r hr => Int.lt_add_one_of_le (h r hr).le)
    (fun r hr => by rw [List.mem_singleton.mp hr]; exact Int.lt_succ _) hrow

theorem positive_add (hnext : 0 < q.next_batch_id) (h : db.Positive) :
    (q.AddMutationBatch mutations db).2.2.Positive := fun row hrow =>
  forall_merge (P := fun row => 0 < row.1.batch_id) (fun r hr => h r hr)
    (fun r hr => by rw [List.mem_singleton.mp hr]; exact hnext) hrow

/-- A new batch comes behind those of its user. -/
theorem of_add (h : db.Below q.next_batch_id) (user : AuthUser) :
    (q.AddMutationBatch mutations db).2.2.of user =
      if user = q.user_id then db.of user ++ [⟨q.next_batch_id, mutations⟩] else db.of user := by
  have hnew : ∀ k, LevelDbMutationKey.Key q.user_id q.next_batch_id = k →
      find k db.mutations = none := by
    rintro _ rfl
    refine find_eq_none.mpr fun hmem => ?_
    obtain ⟨batch, hrow⟩ := mem_keys.mp hmem
    exact absurd (h _ hrow) (lt_irrefl _)
  have hsingle : Sorted [(LevelDbMutationKey.Key q.user_id q.next_batch_id,
      (⟨q.next_batch_id, mutations⟩ : MutationBatch))] := List.pairwise_singleton _ _
  have hrows := (sorted_merge db.ascending hsingle).filter fun row =>
    decide (row.1.user_id = user)
  have hfind : ∀ k, find k ((merge db.mutations [(LevelDbMutationKey.Key q.user_id q.next_batch_id,
      (⟨q.next_batch_id, mutations⟩ : MutationBatch))]).filter
        fun row => decide (row.1.user_id = user)) =
      if k.user_id = user then
        if LevelDbMutationKey.Key q.user_id q.next_batch_id = k then
          some ⟨q.next_batch_id, mutations⟩
        else find k db.mutations
      else none := by
    intro k
    rw [find_filter fun k : LevelDbMutationKey => decide (k.user_id = user), find_merge hsingle,
      find_cons]
    by_cases hk : k.user_id = user
    · by_cases hkey : LevelDbMutationKey.Key q.user_id q.next_batch_id = k <;> simp [hk, hkey]
    · simp [hk]
  rw [AddMutationBatch, MutationTables.of, MutationTables.of]
  split
  · rename_i huser
    have hsorted : Sorted ((db.mutations.filter fun row => decide (row.1.user_id = user)) ++
        [(LevelDbMutationKey.Key q.user_id q.next_batch_id,
          (⟨q.next_batch_id, mutations⟩ : MutationBatch))]) := by
      refine sorted_append_singleton (db.ascending.filter _) fun row hrow => ?_
      obtain ⟨hrow, hrowuser⟩ := List.mem_filter.mp hrow
      exact LevelDbMutationKey.lt_iff.mpr
        (Or.inr ⟨(of_decide_eq_true hrowuser).trans huser, h row hrow⟩)
    rw [ext hrows hsorted fun k => ?_, List.map_append]
    · rfl
    · rw [hfind, find_append, find_filter fun k : LevelDbMutationKey => decide (k.user_id = user),
        find_cons]
      by_cases hkey : LevelDbMutationKey.Key q.user_id q.next_batch_id = k
      · rw [hnew k hkey]
        simp [← hkey, huser]
      · simp [hkey]
  · rename_i huser
    rw [ext hrows (db.ascending.filter _) fun k => ?_]
    rw [hfind, find_filter fun k : LevelDbMutationKey => decide (k.user_id = user)]
    by_cases hkey : LevelDbMutationKey.Key q.user_id q.next_batch_id = k
    · simp [← hkey, Ne.symm huser]
    · simp [hkey]

theorem consistent_add (hc : db.Consistent) (h : db.Below q.next_batch_id) :
    (q.AddMutationBatch mutations db).2.2.Consistent := by
  refine ⟨fun row hrow => ?_, fun user document id => ?_⟩
  · exact forall_merge (P := fun row => row.2.batch_id = row.1.batch_id) hc.ids
      (fun r hr => by rw [List.mem_singleton.mp hr]; rfl) hrow
  · rw [of_add h]
    simp only [AddMutationBatch, Finset.mem_union, hc.index, Finset.mem_image, Prod.mk.injEq]
    constructor
    · rintro (⟨batch, hbatch, hid⟩ | ⟨key, hkey, rfl, rfl, rfl⟩)
      · refine ⟨batch, ?_, hid⟩
        split
        · exact List.mem_append_left _ hbatch
        · exact hbatch
      · rw [if_pos rfl]
        exact ⟨_, List.mem_append_right _ List.mem_cons_self, rfl, hkey⟩
    · rintro ⟨batch, hbatch, rfl, hkey⟩
      split at hbatch
      · rename_i huser
        rcases List.mem_append.mp hbatch with hbatch | hbatch
        · exact Or.inl ⟨batch, hbatch, rfl, hkey⟩
        · rw [List.mem_singleton.mp hbatch] at hkey ⊢
          exact Or.inr ⟨document, hkey, huser.symm, rfl, rfl⟩
      · exact Or.inl ⟨batch, hbatch, rfl, hkey⟩

theorem removeMutationBatch_eq (hc : db.Consistent) (h : batch ∈ db.of q.user_id) :
    q.RemoveMutationBatch batch db = .ok (db.Delete q.user_id batch) := by
  rw [RemoveMutationBatch, head?_seek_of_mem db.ascending ((mem_of hc).mp h)]
  exact if_neg (not_not_intro rfl)

/-- A batch of the user is taken out and no other. -/
theorem of_delete (hc : db.Consistent) (user : AuthUser) :
    (db.Delete q.user_id batch).of user = if user = q.user_id then
      (db.of user).filter fun b => decide (b.batch_id ≠ batch.batch_id) else db.of user := by
  have hkey : ∀ row ∈ db.mutations, row.1.user_id = user →
      (row.1 ≠ LevelDbMutationKey.Key q.user_id batch.batch_id ↔
        (user = q.user_id → row.2.batch_id ≠ batch.batch_id)) := by
    rintro row hrow rfl
    rw [Ne, LevelDbMutationKey.eq_key, hc.ids row hrow, not_and]
  unfold MutationTables.of Delete
  rw [List.filter_filter]
  split
  · rename_i huser
    rw [List.filter_map, List.filter_filter]
    congr 1
    refine List.filter_congr fun row hrow => ?_
    by_cases hrowuser : row.1.user_id = user
    · simp [hrowuser, hkey row hrow hrowuser, huser]
    · simp [hrowuser]
  · rename_i huser
    congr 1
    refine List.filter_congr fun row hrow => ?_
    by_cases hrowuser : row.1.user_id = user
    · simp [hrowuser, hkey row hrow hrowuser, huser]
    · simp [hrowuser]

theorem consistent_delete (hc : db.Consistent) (h : batch ∈ db.of q.user_id) :
    (db.Delete q.user_id batch).Consistent := by
  refine ⟨fun row hrow => hc.ids row (List.mem_filter.mp hrow).1, fun user document id => ?_⟩
  rw [of_delete hc]
  simp only [Delete, Finset.mem_sdiff, hc.index, Finset.mem_image, Prod.mk.injEq, not_exists, not_and]
  constructor
  · rintro ⟨⟨b, hb, rfl, hkey⟩, hnot⟩
    refine ⟨b, ?_, rfl, hkey⟩
    split
    · rename_i huser
      subst huser
      refine List.mem_filter.mpr ⟨hb, decide_eq_true fun hid => ?_⟩
      have hsame := of_unique hc hb h hid
      exact hnot document (hsame ▸ hkey) rfl rfl hid.symm
    · exact hb
  · rintro ⟨b, hb, rfl, hkey⟩
    split at hb
    · obtain ⟨hb, hid⟩ := List.mem_filter.mp hb
      exact ⟨⟨b, hb, rfl, hkey⟩, fun _ _ _ _ heq => of_decide_eq_true hid heq.symm⟩
    · rename_i huser
      exact ⟨⟨b, hb, rfl, hkey⟩, fun _ _ heq _ _ => huser heq.symm⟩

theorem below_delete (h : db.Below id) : (db.Delete user batch).Below id := fun row hrow =>
  h row (List.mem_filter.mp hrow).1

theorem positive_delete (h : db.Positive) : (db.Delete user batch).Positive := fun row hrow =>
  h row (List.mem_filter.mp hrow).1

/-- The first batch of the user is taken out and the others stay. -/
theorem of_delete_head (hc : db.Consistent) {batches : List MutationBatch}
    (h : db.of q.user_id = batch :: batches) :
    (db.Delete q.user_id batch).of q.user_id = batches := by
  have hsorted := of_ascending hc q.user_id
  rw [h] at hsorted
  rw [of_delete hc, if_pos rfl, h, List.filter_cons_of_neg (by simp), List.filter_eq_self.mpr]
  exact fun b hb => decide_eq_true (ne_of_gt ((List.pairwise_cons.mp hsorted).1 b hb))

theorem isEmpty_iff : q.IsEmpty db = true ↔ db.of q.user_id = [] := by
  rw [← allMutationBatches_eq, IsEmpty, AllMutationBatches, List.map_eq_nil_iff]
  cases db.mutations.dropWhile fun row => decide (row.1.user_id < q.user_id) with
  | nil => simp
  | cons row rows =>
    by_cases huser : row.1.user_id = q.user_id <;> simp [huser]

theorem performConsistencyCheck_ok (hc : db.Consistent) :
    q.PerformConsistencyCheck db = .ok () := by
  unfold PerformConsistencyCheck
  by_cases hempty : q.IsEmpty db = true
  · rw [if_neg (by simp [hempty]), if_neg]
    rintro ⟨⟨user, document, id⟩, hrow, rfl⟩
    obtain ⟨b, hb, -⟩ := (hc.index _ _ _).mp hrow
    rw [isEmpty_iff.mp hempty] at hb
    contradiction
  · rw [if_pos (by simpa using hempty)]

end LevelDbMutationQueue

end VoisinMalin
