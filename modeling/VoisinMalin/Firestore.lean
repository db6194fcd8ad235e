import VoisinMalin.Model
import Mathlib.Data.Finmap

/-! The `ads` collection: its documents by their Firestore ID, which only serves to address them, the
queries that the controllers send, by title and by the presence of a favourite mark, and the
single-document writes that they issue. -/

namespace VoisinMalin

abbrev DocID := Nat

abbrev Collection := Finmap fun _ : DocID => Fields

def whereField (field value : String) (data : Fields) : Bool :=
  match data field with
  | some (.string s) => s == value
  | _ => false

theorem whereField_iff {field value : String} {data : Fields} :
    whereField field value data = true ↔ data field = some (.string value) := by
  unfold whereField
  split
  · rename_i s h
    simp [h]
  · rename_i h
    simp only [Bool.false_eq_true, false_iff]
    exact h value

structure Query where
  title : String
  mark : Option MarkKey
deriving DecidableEq

def Query.selects (q : Query) (data : Fields) : Bool :=
  whereField K.titleField q.title data &&
    match q.mark with
    | none => true
    | some key => whereField key.name "" data

theorem Query.selects_mark {title : String} {key : MarkKey} {data : Fields} :
    (Query.mk title (some key)).selects data = true ↔
      data K.titleField = some (.string title) ∧ Marked key data := by
  simp [Query.selects, whereField_iff, Marked]

def Query.ids (q : Query) (ads : Collection) : Finset DocID :=
  ads.keys.filter fun id => (ads.lookup id).any q.selects

theorem Query.mem_ids {q : Query} {ads : Collection} {id : DocID} :
    id ∈ q.ids ads ↔ ∃ data, ads.lookup id = some data ∧ q.selects data = true := by
  simp only [Query.ids, Finset.mem_filter, Finmap.mem_keys, Option.any_eq_true]
  exact ⟨And.right, fun ⟨data, h, hq⟩ => ⟨Finmap.mem_of_lookup_eq_some h, data, h, hq⟩⟩

inductive Write where
  | setData (id : DocID) (key : MarkKey) -- `setData([key: ""], merge: true)`
  | updateData (id : DocID) (key : MarkKey) -- `updateData([key: FieldValue.delete()])`
  | delete (id : DocID)
  | addDocument (id : DocID) (data : AdData) -- with the ID that Firestore draws
deriving DecidableEq

def Write.id : Write → DocID
  | .setData id _ | .updateData id _ | .delete id | .addDocument id _ => id

/-- What a write makes of its document, `none` standing for a missing one. The outer `none` is
the error that `updateData` gives for a missing document. -/
def Write.document : Write → Option Fields → Option (Option Fields)
  -- A merge starts from the empty document where there is none.
  | .setData _ key, data =>
    some (some (Function.update (data.getD fun _ => none) key.name (some (.string ""))))
  | .updateData _ key, data => data.map fun d => some (Function.update d key.name none)
  | .delete _, _ => some none
  | .addDocument _ data, _ => some (some data.fields)

def Collection.put (ads : Collection) (id : DocID) : Option Fields → Collection
  | some data => ads.insert id data
  | none => ads.erase id

def Write.apply (w : Write) (ads : Collection) : Option Collection :=
  (w.document (ads.lookup w.id)).map (ads.put w.id)

theorem Collection.lookup_put (ads : Collection) (id i : DocID) (data : Option Fields) :
    (ads.put id data).lookup i = if i = id then data else ads.lookup i := by
  by_cases h : i = id
  · subst h
    cases data <;> simp [Collection.put, Finmap.lookup_insert, Finmap.lookup_erase]
  · cases data <;>
      simp [Collection.put, h, Finmap.lookup_insert_of_ne, Finmap.lookup_erase_ne]

/-- A write that succeeds changes the document that it addresses and no other. -/
theorem Write.lookup_apply {w : Write} {ads ads' : Collection} (h : w.apply ads = some ads') :
    ∃ data, w.document (ads.lookup w.id) = some data ∧
      ∀ i, ads'.lookup i = if i = w.id then data else ads.lookup i := by
  obtain ⟨data, hdata, rfl⟩ := Option.map_eq_some_iff.mp h
  exact ⟨data, hdata, fun i => Collection.lookup_put ads w.id i data⟩

/-- No two documents have the same text in `field`. -/
def DistinctField (field : String) (ads : Collection) : Prop :=
  ∀ i j di dj s, ads.lookup i = some di → ads.lookup j = some dj →
    di field = some (.string s) → dj field = some (.string s) → i = j

abbrev DistinctDocumentIDs := DistinctField K.documentID

abbrev DistinctTitles := DistinctField K.titleField

theorem distinctField_empty (field : String) : DistinctField field ∅ := by
  intro i j di dj s hi
  simp at hi

theorem distinctField_single (field : String) (id : DocID) (data : Fields) :
    DistinctField field ((∅ : Collection).insert id data) := by
  have honly : ∀ i d, Finmap.lookup i ((∅ : Collection).insert id data) = some d → i = id := by
    intro i d hd
    have h := Collection.lookup_put ∅ id i (some data)
    rw [show (∅ : Collection).put id (some data) = (∅ : Collection).insert id data from rfl, hd] at h
    by_contra hi
    simp [hi] at h
  intro i j di dj s hi hj _ _
  rw [honly i di hi, honly j dj hj]

/-- A new document keeps a field distinct exactly when no other document has its text. -/
theorem distinctField_insert {field s : String} {ads : Collection} {id : DocID} {data : Fields}
    (hnew : ads.lookup id = none) (hdata : data field = some (.string s)) :
    DistinctField field (ads.insert id data) ↔ DistinctField field ads ∧
      ∀ j dj, ads.lookup j = some dj → dj field ≠ some (.string s) := by
  have hlookup : ∀ i, Finmap.lookup i (ads.insert id data) =
      if i = id then some data else ads.lookup i :=
    fun i => Collection.lookup_put ads id i (some data)
  have hold : ∀ i d, ads.lookup i = some d → i ≠ id := by
    rintro i d hi rfl
    rw [hnew] at hi
    contradiction
  constructor
  · intro h
    refine ⟨fun i j di dj t hi hj hdi hdj => ?_, fun j dj hj hdj => ?_⟩
    · refine h i j di dj t ?_ ?_ hdi hdj
      · rw [hlookup, if_neg (hold i di hi), hi]
      · rw [hlookup, if_neg (hold j dj hj), hj]
    · refine hold j dj hj (h j id dj data s ?_ ?_ hdj hdata)
      · rw [hlookup, if_neg (hold j dj hj), hj]
      · rw [hlookup, if_pos rfl]
  · rintro ⟨h, hother⟩ i j di dj t hi hj hdi hdj
    rw [hlookup] at hi hj
    by_cases hiid : i = id <;> by_cases hjid : j = id
    · rw [hiid, hjid]
    · rw [if_pos hiid] at hi
      rw [if_neg hjid] at hj
      cases hi
      rw [hdata] at hdi
      cases hdi
      exact absurd hdj (hother j dj hj)
    · rw [if_neg hiid] at hi
      rw [if_pos hjid] at hj
      cases hj
      rw [hdata] at hdj
      cases hdj
      exact absurd hdi (hother i di hi)
    · rw [if_neg hiid] at hi
      rw [if_neg hjid] at hj
      exact h i j di dj t hi hj hdi hdj

/-- A collection of two ads. -/
def Collection.pair (first second : AdData) : Collection :=
  ((∅ : Collection).insert 1 first.fields).insert 2 second.fields

theorem Collection.pair_lookup (first second : AdData) (i : DocID) :
    (Collection.pair first second).lookup i =
      if i = 2 then some second.fields else if i = 1 then some first.fields else none := by
  have h1 := Collection.lookup_put (∅ : Collection) 1 i (some first.fields)
  have h2 := Collection.lookup_put ((∅ : Collection).insert 1 first.fields) 2 i
    (some second.fields)
  rw [Finmap.lookup_empty] at h1
  exact h2.trans (by rw [← h1]; rfl)

theorem Collection.pair_cases {first second : AdData} {i : DocID} {data : Fields}
    (h : (Collection.pair first second).lookup i = some data) :
    data = first.fields ∨ data = second.fields := by
  rw [Collection.pair_lookup] at h
  split at h
  · cases h
    exact Or.inr rfl
  · split at h
    · cases h
      exact Or.inl rfl
    · contradiction

theorem Collection.pair_distinct {first second : AdData} {field : String} (s t : String)
    (hs : first.fields field = some (.string s)) (ht : second.fields field = some (.string t))
    (h : s ≠ t) : DistinctField field (Collection.pair first second) := by
  refine (distinctField_insert (by simp [Finmap.lookup_insert_of_ne]) ht).mpr
    ⟨distinctField_single field 1 first.fields, fun j dj hj hdj => ?_⟩
  have hj' := Collection.lookup_put (∅ : Collection) 1 j (some first.fields)
  rw [show (∅ : Collection).put 1 (some first.fields) = (∅ : Collection).insert 1 first.fields
    from rfl, hj] at hj'
  split at hj'
  · cases hj'
    rw [hs] at hdj
    cases hdj
    exact h rfl
  · simp at hj'

end VoisinMalin
