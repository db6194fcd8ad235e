import VoisinMalin.Firestore.Changes
import VoisinMalin.Firestore.FieldPath
import Mathlib.Data.List.Sort

/-! The data of a document in the Firestore SDK: a map whose fields, at every depth, are in ascending
key order. A change is made in the map at the end of a path, and the values at the paths that do not
lead there stay. -/

namespace VoisinMalin

open SortedMap

namespace Value

/-- Every map in the value, at whatever depth, has `P`. -/
inductive Everywhere (P : Entries → Prop) : Value → Prop
  | map {fields : Entries} (h : P fields) (hrest : ∀ e ∈ fields, Everywhere P e.2) :
      Everywhere P (.map fields)
  | array {values : List Value} (h : ∀ v ∈ values, Everywhere P v) : Everywhere P (.array values)
  | scalar {v : Value} (hmap : ∀ fields, v ≠ .map fields) (harray : ∀ values, v ≠ .array values) :
      Everywhere P v

theorem everywhere_string {P : Entries → Prop} {s : String} : (Value.string s).Everywhere P :=
  .scalar (by simp) (by simp)

theorem everywhere_boolean {P : Entries → Prop} {b : Bool} : (Value.boolean b).Everywhere P :=
  .scalar (by simp) (by simp)

theorem everywhere_map {P : Entries → Prop} {fields : Entries} :
    (Value.map fields).Everywhere P ↔ P fields ∧ ∀ e ∈ fields, e.2.Everywhere P := by
  constructor
  · intro h
    cases h with
    | map h hrest => exact ⟨h, hrest⟩
    | scalar hmap => exact absurd rfl (hmap fields)
  · rintro ⟨h, hrest⟩
    exact .map h hrest

/-- "MapValues in iOS are always stored in sorted order." -/
abbrev InOrder : Value → Prop := Everywhere Sorted

/-- A dictionary has a key once. -/
abbrev Dictionaries : Value → Prop := Everywhere fun fields => (keys fields).Nodup

end Value

section SortFields

variable {v : Value} {fields : Entries} {values : List Value}

theorem sortEntries_eq : SortEntries fields = fields.map fun e => (e.1, SortFields e.2) := by
  induction fields with
  | nil => rw [SortEntries, List.map_nil]
  | cons e fields ih => rw [SortEntries, List.map_cons, ih]

theorem sortValues_eq : SortValues values = values.map SortFields := by
  induction values with
  | nil => rw [SortValues, List.map_nil]
  | cons v values ih => rw [SortValues, List.map_cons, ih]

/-- Sorting the fields of a dictionary leaves them in strictly ascending key order. -/
theorem sorted_mergeSort (h : (keys fields).Nodup) : Sorted (fields.mergeSort keyLe) := by
  have hle : (fields.mergeSort keyLe).Pairwise fun a b => keyLe a b = true := by
    refine List.pairwise_mergeSort (fun a b c hab hbc => ?_) (fun a b => ?_) fields
    · simp only [keyLe, decide_eq_true_eq] at hab hbc ⊢
      exact hab.trans hbc
    · simpa [keyLe] using le_total a.1 b.1
  have hne : (fields.mergeSort keyLe).Pairwise fun a b => a.1 ≠ b.1 := by
    have hnodup : (keys (fields.mergeSort keyLe)).Nodup :=
      ((List.mergeSort_perm fields keyLe).map Prod.fst).nodup_iff.mpr h
    exact List.pairwise_map.mp hnodup
  refine (hle.and hne).imp fun h => ?_
  exact lt_of_le_of_ne (of_decide_eq_true h.1) h.2

theorem sortFields_scalar (hmap : ∀ fields, v ≠ .map fields) (harray : ∀ values, v ≠ .array values) :
    SortFields v = v := by
  cases v with
  | map fields => exact absurd rfl (hmap fields)
  | array values => exact absurd rfl (harray values)
  | _ => rfl

theorem sortFields_map : SortFields (.map fields) =
    .map ((fields.map fun e => (e.1, SortFields e.2)).mergeSort keyLe) := by
  rw [SortFields, sortEntries_eq]

theorem sortFields_inOrder (h : v.Dictionaries) : (SortFields v).InOrder := by
  induction h with
  | map h hrest ih =>
    rw [sortFields_map]
    refine .map (sorted_mergeSort ?_) fun e he => ?_
    · rw [keys, List.map_map]
      exact h
    · obtain ⟨f, hf, rfl⟩ := List.mem_map.mp (List.mem_mergeSort.mp he)
      exact ih f hf
  | array h ih =>
    rw [SortFields, sortValues_eq]
    refine .array fun w hw => ?_
    obtain ⟨u, hu, rfl⟩ := List.mem_map.mp hw
    exact ih u hu
  | scalar hmap harray =>
    rw [sortFields_scalar hmap harray]
    exact .scalar hmap harray

theorem inOrder_nil : (Value.map []).InOrder := .map .nil (by simp)

end SortFields

/-- A value that the app hands over. -/
abbrev UserData := { v : Value // v.Dictionaries }

/-- What `ApplyChanges` is to do to the fields of one map. -/
structure Changes where
  upserts : Entries
  deletes : Finset String
  ascending : Sorted upserts
  dictionaries : ∀ e ∈ upserts, e.2.Dictionaries

structure ObjectValue where
  fields : Entries
  inOrder : (Value.map fields).InOrder

namespace Changes

def none : Changes := ⟨[], ∅, .nil, by simp⟩

def upsert (c : Changes) (key : String) (v : UserData) : Changes where
  upserts := merge c.upserts [(key, v.1)]
  deletes := c.deletes
  ascending := sorted_merge c.ascending (List.pairwise_singleton _ _)
  dictionaries e he := forall_merge c.dictionaries (by simpa using v.2) he

def delete (c : Changes) (key : String) : Changes := { c with deletes := insert key c.deletes }

/-- One entry of the patch in the loop of `SetAll`. -/
def add (c : Changes) (key : String) : Option UserData → Changes
  | some v => c.upsert key v
  | .none => c.delete key

end Changes

namespace ObjectValue

def FindEntry (segment : String) : Value → Option Value
  | .map fields => find segment fields
  | _ => none

/-- The loop of `Get`. -/
def Get.loop : FieldPath → Value → Option Value
  | [], v => some v
  | segment :: path, v => (FindEntry segment v).bind (loop path)

def Get (o : ObjectValue) (path : FieldPath) : Option Value := Get.loop path (.map o.fields)

/-- What the source writes through the pointer that `FindEntry` returns. -/
def setEntry (segment : String) (v : Value) (fields : Entries) : Entries :=
  fields.map fun e => if e.1 = segment then (e.1, v) else e

/-- `ParentMap`, with the change that its callers make through the pointer that it returns. -/
def ParentMap (change : Entries → Entries) : FieldPath → Entries → Entries
  | [], fields => change fields
  | segment :: path, fields =>
    match FindEntry segment (.map fields) with
    | some (.map nested) => setEntry segment (.map (ParentMap change path nested)) fields
    -- What is no map is freed and made one.
    | some _ => setEntry segment (.map (ParentMap change path [])) fields
    | none =>
      setEntry segment (.map (ParentMap change path []))
        (ApplyChanges fields [(segment, .map [])] ∅)

/-- The loop of `Delete`, with the change made through its pointer. -/
def Delete.loop (change : Entries → Entries) : FieldPath → Entries → Entries
  | [], fields => change fields
  | segment :: path, fields =>
    match FindEntry segment (.map fields) with
    | some (.map nested) => setEntry segment (.map (loop change path nested)) fields
    | _ => fields

section Entries

variable {fields nested : Entries} {v : Value} {segment k : String} {path q r : FieldPath}
  {c : Changes} {change : Entries → Entries}

theorem inOrder_map :
    (Value.map fields).InOrder ↔ Sorted fields ∧ ∀ e ∈ fields, e.2.InOrder := Value.everywhere_map

theorem inOrder_find (h : (Value.map fields).InOrder) (hv : find k fields = some v) : v.InOrder :=
  (inOrder_map.mp h).2 _ (mem_of_find hv)

theorem inOrder_applyChanges {upserts : Entries} {deletes : Finset String}
    (hupserts : Sorted upserts) (hdictionaries : ∀ e ∈ upserts, e.2.Dictionaries)
    (h : (Value.map fields).InOrder) :
    (Value.map (ApplyChanges fields upserts deletes)).InOrder := by
  obtain ⟨hsorted, hvalues⟩ := inOrder_map.mp h
  refine inOrder_map.mpr ⟨sorted_applyChanges hsorted hupserts, fun e he => ?_⟩
  rw [applyChanges_eq hsorted hupserts] at he
  refine forall_merge (P := fun e => e.2.InOrder) (fun e he => ?_) (fun e he => ?_)
    (List.mem_of_mem_take he)
  · exact hvalues e (List.mem_of_mem_filter he)
  · obtain ⟨f, hf, rfl⟩ := List.mem_map.mp he
    exact sortFields_inOrder (hdictionaries f hf)

theorem keys_setEntry : keys (setEntry segment v fields) = keys fields := by
  unfold keys setEntry
  rw [List.map_map]
  refine List.map_congr_left fun e _ => ?_
  dsimp only [Function.comp]
  split <;> rfl

theorem inOrder_setEntry (h : (Value.map fields).InOrder) (hv : v.InOrder) :
    (Value.map (setEntry segment v fields)).InOrder := by
  obtain ⟨hsorted, hvalues⟩ := inOrder_map.mp h
  refine inOrder_map.mpr ⟨?_, fun e he => ?_⟩
  · have hkeys : (keys (setEntry segment v fields)).Pairwise (· < ·) := by
      rw [keys_setEntry]
      exact List.pairwise_map.mpr hsorted
    exact List.pairwise_map.mp hkeys
  · obtain ⟨f, hf, rfl⟩ := List.mem_map.mp he
    split
    · exact hv
    · exact hvalues f hf

theorem find_setEntry : find k (setEntry segment v fields) =
    if k = segment then (find k fields).map fun _ => v else find k fields := by
  unfold setEntry
  induction fields with
  | nil => simp
  | cons e fields ih =>
    rw [List.map_cons, find_cons, ih, find_cons]
    by_cases he : e.1 = segment <;> by_cases hk : k = segment <;> by_cases hek : e.1 = k <;> simp_all

theorem find_insert (h : Sorted fields) : find k (ApplyChanges fields [(segment, .map [])] ∅) =
    if k = segment then some (.map []) else find k fields := by
  have hupserts : Sorted [(segment, Value.map [])] := List.pairwise_singleton _ _
  have hdisjoint : ∀ d ∈ (∅ : Finset String), d ∉ keys [(segment, Value.map [])] := by simp
  rw [(applyChanges_eq_changed h hupserts hdisjoint).mpr (by simp [Unobstructed]),
    find_changed hupserts hdisjoint]
  by_cases hk : k = segment
  · subst hk
    simp [prepared, find_cons, SortFields, SortEntries]
  · simp [prepared, find_cons, hk, Ne.symm hk]

/-- The fields of what `FindEntry` returns, once that has been made a map. -/
def asMap : Option Value → Entries
  | some (.map fields) => fields
  | _ => []

theorem inOrder_asMap {o : Option Value} (h : ∀ v, o = some v → v.InOrder) :
    (Value.map (asMap o)).InOrder := by
  unfold asMap
  split
  · exact h _ rfl
  · exact inOrder_nil

theorem find_parentMap (h : Sorted fields) : find k (ParentMap change (segment :: path) fields) =
    if k = segment then some (.map (ParentMap change path (asMap (find segment fields))))
    else find k fields := by
  rw [ParentMap, FindEntry]
  split
  · rename_i nested hfound
    rw [find_setEntry, hfound]
    split
    · rename_i hk
      rw [hk, hfound, asMap, Option.map_some]
    · rfl
  · rename_i v hmap hfound
    have hnone : asMap (some v) = [] := by
      cases v with
      | map nested => exact (hmap nested rfl).elim
      | _ => rfl
    rw [find_setEntry, hfound, hnone]
    split
    · rename_i hk
      rw [hk, hfound, Option.map_some]
    · rfl
  · rename_i hfound
    rw [find_setEntry, find_insert h, hfound, asMap]
    · split <;> rfl
    · simp

theorem get_append {v : Value} : Get.loop (path ++ r) v = (Get.loop path v).bind (Get.loop r) := by
  induction path generalizing v with
  | nil => rfl
  | cons segment path ih =>
    rw [List.cons_append, Get.loop, Get.loop, Option.bind_assoc]
    exact congrArg _ (funext fun w => ih)

theorem get_asMap {o : Option Value} (hq : q ≠ []) :
    Get.loop q (.map (asMap o)) = o.bind (Get.loop q) := by
  cases q with
  | nil => contradiction
  | cons k q =>
    cases o with
    | none => rfl
    | some v => cases v <;> rfl

theorem asMap_get {o : Option Value} :
    asMap (Get.loop path (.map (asMap o))) = asMap (o.bind (Get.loop path)) := by
  cases path with
  | nil => cases o <;> rfl
  | cons k path => rw [get_asMap (by simp)]

theorem get_parentMap (h : (Value.map fields).InOrder) :
    Get.loop (path ++ r) (.map (ParentMap change path fields)) =
      Get.loop r (.map (change (asMap (Get.loop path (.map fields))))) := by
  induction path generalizing fields with
  | nil => rfl
  | cons segment path ih =>
    rw [List.cons_append, Get.loop, FindEntry, find_parentMap (inOrder_map.mp h).1, if_pos rfl,
      Option.bind_some, ih (inOrder_asMap fun v hv => inOrder_find h hv), asMap_get]
    rfl

theorem get_parentMap_of_not_prefix (h : (Value.map fields).InOrder) (hpath : ¬path <+: q)
    (hq : ¬q <+: path) : Get.loop q (.map (ParentMap change path fields)) =
      Get.loop q (.map fields) := by
  induction path generalizing q fields with
  | nil => exact absurd List.nil_prefix hpath
  | cons segment path ih =>
    cases q with
    | nil => exact absurd List.nil_prefix hq
    | cons k q =>
      rw [Get.loop, Get.loop, FindEntry, FindEntry, find_parentMap (inOrder_map.mp h).1]
      split
      · rename_i hk
        subst hk
        rw [List.prefix_cons_inj] at hpath hq
        rw [Option.bind_some, ih (inOrder_asMap fun v hv => inOrder_find h hv) hpath hq]
        exact get_asMap fun hnil => hq (hnil ▸ List.nil_prefix)
      · rfl

theorem setEntry_self (h : Sorted fields) (hv : find segment fields = some v) :
    setEntry segment v fields = fields := by
  have hsorted : (keys (setEntry segment v fields)).Pairwise (· < ·) := by
    rw [keys_setEntry]
    exact List.pairwise_map.mpr h
  refine ext (List.pairwise_map.mp hsorted) h fun k => ?_
  rw [find_setEntry]
  split
  · rename_i hk
    rw [hk, hv, Option.map_some]
  · rfl

/-- Below a map `Delete` makes its change where `ParentMap` does. -/
theorem delete_loop_map {m : Entries} (h : Get.loop path (.map fields) = some (.map m)) :
    Delete.loop change path fields = ParentMap change path fields := by
  induction path generalizing fields with
  | nil => rfl
  | cons segment path ih =>
    rw [Delete.loop, ParentMap]
    obtain ⟨v, hv, hrest⟩ := Option.bind_eq_some_iff.mp h
    rw [hv]
    cases v with
    | map nested =>
      dsimp only
      rw [ih hrest]
    | _ => cases path <;> simp [Get.loop, FindEntry] at hrest

/-- Where there is no map `Delete` does nothing. -/
theorem delete_loop_not_map (hfields : (Value.map fields).InOrder)
    (h : ∀ m, Get.loop path (.map fields) ≠ some (.map m)) :
    Delete.loop change path fields = fields := by
  induction path generalizing fields with
  | nil => exact absurd rfl (h fields)
  | cons segment path ih =>
    rw [Delete.loop]
    split
    · rename_i nested hfound
      have hrest : ∀ m, Get.loop path (.map nested) ≠ some (.map m) := by
        intro m hm
        refine h m ?_
        rw [Get.loop, hfound]
        exact hm
      rw [ih (inOrder_find hfields hfound) hrest]
      exact setEntry_self (inOrder_map.mp hfields).1 hfound
    · rfl

theorem inOrder_get (h : v.InOrder) {w : Value} (hw : Get.loop path v = some w) : w.InOrder := by
  induction path generalizing v with
  | nil =>
    cases hw
    exact h
  | cons segment path ih =>
    obtain ⟨u, hu, hrest⟩ := Option.bind_eq_some_iff.mp hw
    cases v with
    | map fields => exact ih (inOrder_find h hu) hrest
    | _ => contradiction

theorem inOrder_parentMap
    (hchange : ∀ m, (Value.map m).InOrder → (Value.map (change m)).InOrder)
    (h : (Value.map fields).InOrder) : (Value.map (ParentMap change path fields)).InOrder := by
  induction path generalizing fields with
  | nil => exact hchange fields h
  | cons segment path ih =>
    rw [ParentMap, FindEntry]
    split
    · rename_i nested hfound
      exact inOrder_setEntry h (ih (inOrder_find h hfound))
    · exact inOrder_setEntry h (ih inOrder_nil)
    · refine inOrder_setEntry (inOrder_applyChanges (List.pairwise_singleton _ _) ?_ h)
        (ih inOrder_nil)
      simp only [List.mem_singleton, forall_eq]
      exact .map List.nodup_nil (by simp)

theorem inOrder_delete (hchange : ∀ m, (Value.map m).InOrder → (Value.map (change m)).InOrder)
    (h : (Value.map fields).InOrder) : (Value.map (Delete.loop change path fields)).InOrder := by
  induction path generalizing fields with
  | nil => exact hchange fields h
  | cons segment path ih =>
    rw [Delete.loop, FindEntry]
    split
    · rename_i nested hfound
      exact inOrder_setEntry h (ih (inOrder_find h hfound))
    · exact h

end Entries

end ObjectValue

end VoisinMalin
