import VoisinMalin.Firestore
import VoisinMalin.Firestore.UserData

/-! The mutations of the Firestore SDK. The writes of the controllers become mutations with a
precondition, and a mutation applied to the local view of a document makes of it what the write does.
What the backend has accepted changes the cached document in the same way. -/

namespace VoisinMalin

open SortedMap ObjectValue

/-- Seconds and nanoseconds. -/
abbrev SnapshotVersion := ℕ × ℕ

inductive DocumentType where
  | kInvalid | kFoundDocument | kNoDocument | kUnknownDocument
deriving DecidableEq

inductive DocumentState where
  | kHasLocalMutations | kHasCommittedMutations | kSynced
deriving DecidableEq

def ObjectValue.empty : ObjectValue := ⟨[], inOrder_nil⟩

/-- Only a document that is there has data. -/
structure MutableDocument where
  document_type : DocumentType
  version : SnapshotVersion
  value : ObjectValue
  document_state : DocumentState
  noData : document_type ≠ .kFoundDocument → value = .empty

namespace MutableDocument

def InvalidDocument : MutableDocument := ⟨.kInvalid, (0, 0), .empty, .kSynced, fun _ => rfl⟩

def is_found_document (doc : MutableDocument) : Bool := doc.document_type == .kFoundDocument

def is_valid_document (doc : MutableDocument) : Bool := doc.document_type != .kInvalid

def ConvertToFoundDocument (version : SnapshotVersion) (value : ObjectValue) : MutableDocument :=
  ⟨.kFoundDocument, version, value, .kSynced, fun h => absurd rfl h⟩

def ConvertToNoDocument (version : SnapshotVersion) : MutableDocument :=
  ⟨.kNoDocument, version, .empty, .kSynced, fun _ => rfl⟩

def ConvertToUnknownDocument (version : SnapshotVersion) : MutableDocument :=
  ⟨.kUnknownDocument, version, .empty, .kHasCommittedMutations, fun _ => rfl⟩

def SetHasLocalMutations (doc : MutableDocument) : MutableDocument :=
  { doc with document_state := .kHasLocalMutations }

def SetHasCommittedMutations (doc : MutableDocument) : MutableDocument :=
  { doc with document_state := .kHasCommittedMutations }

/-- The data of a document that is there. -/
def data? (doc : MutableDocument) : Option ObjectValue :=
  if doc.is_found_document then some doc.value else none

end MutableDocument

inductive Precondition where
  | None
  | Exists (exists_ : Bool)
  | UpdateTime (update_time : SnapshotVersion)
deriving DecidableEq

def Precondition.IsValidFor (precondition : Precondition) (doc : MutableDocument) : Bool :=
  match precondition with
  | .UpdateTime update_time => doc.is_found_document && doc.version == update_time
  | .Exists exists_ => exists_ == doc.is_found_document
  | .None => true

/-- The mutations without field transforms. -/
inductive Mutation where
  | Set (key : DocID) (value : ObjectValue) (precondition : Precondition)
  | Patch (key : DocID) (value : ObjectValue) (mask : Finset FieldPath) (precondition : Precondition)
  | Delete (key : DocID) (precondition : Precondition)

namespace Mutation

def key : Mutation → DocID
  | .Set key _ _ | .Patch key _ _ _ | .Delete key _ => key

def precondition : Mutation → Precondition
  | .Set _ _ precondition | .Patch _ _ _ precondition | .Delete _ precondition => precondition

def GetPostMutationVersion (doc : MutableDocument) : SnapshotVersion :=
  if doc.is_found_document then doc.version else (0, 0)

end Mutation

theorem inOrder_dictionaries {v : Value} (h : v.InOrder) : v.Dictionaries := by
  induction h with
  | map h _ ih => exact .map (List.pairwise_map.mpr (h.imp ne_of_lt)) ih
  | array _ ih => exact .array ih
  | scalar hmap harray => exact .scalar hmap harray

/-- A clone of the value at a path. -/
def ObjectValue.clone (o : ObjectValue) (path : FieldPath) : Option UserData :=
  (o.Get path).attach.map fun v => ⟨v.1, inOrder_dictionaries (inOrder_get o.inOrder v.2)⟩

namespace Mutation

def GetPatch (value : ObjectValue) (mask : Finset FieldPath) : TransformMap :=
  (mask.sort.filter (· ≠ [])).map fun path => (path, value.clone path)

def ApplyToLocalView (m : Mutation) (doc : MutableDocument) : MutableDocument :=
  if !m.precondition.IsValidFor doc then doc
  else
    match m with
    | .Set _ value _ =>
      (MutableDocument.ConvertToFoundDocument (GetPostMutationVersion doc)
        value).SetHasLocalMutations
    | .Patch _ value mask _ =>
      (MutableDocument.ConvertToFoundDocument (GetPostMutationVersion doc)
        (doc.value.SetAll (GetPatch value mask))).SetHasLocalMutations
    | .Delete _ _ => MutableDocument.ConvertToNoDocument (0, 0)

/-- The acknowledged mutation, `version` being the one of its result. -/
def ApplyToRemoteDocument (m : Mutation) (version : SnapshotVersion) (doc : MutableDocument) :
    MutableDocument :=
  match m with
  -- The backend has checked the precondition.
  | .Set _ value _ =>
    (MutableDocument.ConvertToFoundDocument version value).SetHasCommittedMutations
  | .Patch _ value mask precondition =>
    if !precondition.IsValidFor doc then MutableDocument.ConvertToUnknownDocument version
    else
      (MutableDocument.ConvertToFoundDocument version
        (doc.value.SetAll (GetPatch value mask))).SetHasCommittedMutations
  | .Delete _ _ => (MutableDocument.ConvertToNoDocument version).SetHasCommittedMutations

end Mutation

def ParsedData.ToMutation (parsed : ParsedData) (key : DocID) (precondition : Precondition) :
    Mutation :=
  match parsed.field_mask with
  | some mask => .Patch key parsed.data mask precondition
  | none => .Set key parsed.data precondition

section Patch

variable {o value : ObjectValue} {mask : Finset FieldPath} {path q r : FieldPath}

theorem clone_eq_none : value.clone path = none ↔ value.Get path = none := by
  simp [clone]

theorem clone_eq_some {v : UserData} : value.clone path = some v ↔ value.Get path = some v.1 := by
  rw [clone, Option.map_eq_some_iff]
  constructor
  · rintro ⟨w, -, rfl⟩
    exact w.2
  · intro h
    exact ⟨⟨v.1, h⟩, Option.mem_attach _ _, rfl⟩

theorem mem_getPatch {v : Option UserData} (hroot : [] ∉ mask) :
    (path, v) ∈ Mutation.GetPatch value mask ↔ path ∈ mask ∧ v = value.clone path := by
  have hne : path ∈ mask → path ≠ [] := fun h hnil => hroot (hnil ▸ h)
  simp only [Mutation.GetPatch, List.mem_map, List.mem_filter, Finset.mem_sort, Prod.mk.injEq,
    decide_eq_true_eq]
  constructor
  · rintro ⟨p, ⟨hp, -⟩, rfl, rfl⟩
    exact ⟨hp, rfl⟩
  · rintro ⟨hp, rfl⟩
    exact ⟨path, ⟨hp, hne hp⟩, rfl, rfl⟩

/-- A patch mutation whose mask lies apart, with no two missing values in one map, leaves the document
with its values at the paths of the mask and with what was there apart from these. -/
theorem getPatch_patched (hroot : [] ∉ mask) (hapart : ∀ p ∈ mask, ∀ q ∈ mask, p = q ∨ Apart p q)
    (hone : ∀ p ∈ mask, ∀ q ∈ mask, value.Get p = none → value.Get q = none →
      p.dropLast = q.dropLast → p = q) :
    Patched (fun p v => p ∈ mask ∧ v = value.clone p) o (o.SetAll (Mutation.GetPatch value mask)) := by
  have hentries : (fun p v => (p, v) ∈ Mutation.GetPatch value mask) =
      fun p v => p ∈ mask ∧ v = value.clone p := by
    funext p v
    rw [mem_getPatch hroot]
  rw [← hentries]
  refine setAll_patched ⟨fun p v q w hp hq => ?_, fun p q hp hq hparent => ?_⟩ fun e he => ?_
  · rw [mem_getPatch hroot] at hp hq
    rcases hapart p hp.1 q hq.1 with rfl | h
    · exact Or.inl ⟨rfl, hp.2.trans hq.2.symm⟩
    · exact Or.inr h
  · rw [mem_getPatch hroot] at hp hq
    exact hone p hp.1 q hq.1 (clone_eq_none.mp hp.2.symm) (clone_eq_none.mp hq.2.symm) hparent
  · exact fun hnil => hroot (hnil ▸ ((mem_getPatch hroot).mp he).1)

end Patch

theorem leaves_patched (value o : ObjectValue) :
    Patched (fun p v => p ∈ value.ToFieldMask ∧ v = value.clone p) o
      (o.SetAll (Mutation.GetPatch value value.ToFieldMask)) := by
  refine getPatch_patched (fun hnil => leaf_ne_nil hnil rfl)
    (fun p hp q hq => leaves_apart (inOrder_dictionaries value.inOrder) hp hq)
    fun p hp q hq hnone => ?_
  obtain ⟨w, hw⟩ := get_leaf value.inOrder hp
  rw [ObjectValue.Get, hw] at hnone
  contradiction

theorem merge_apply {input : Entries} {h : (Value.map input).Dictionaries} {parsed : ParsedData}
    (hparsed : parsedMergeData input h = .ok parsed) (id : DocID) (doc : MutableDocument) :
    (parsed.ToMutation id .None).ApplyToLocalView doc =
      (MutableDocument.ConvertToFoundDocument (Mutation.GetPostMutationVersion doc)
        (doc.value.SetAll (Mutation.GetPatch (ObjectValue.new input h)
          (ObjectValue.new input h).ToFieldMask))).SetHasLocalMutations := by
  obtain ⟨hdata, hmask⟩ := parsedMergeData_mask hparsed
  rw [ParsedData.ToMutation, hmask, hdata]
  rfl

/-- The ad that Bob and Eve have among their favourites, in the cache. -/
def markedCached : MutableDocument := .ConvertToFoundDocument (1, 0) markedDocument

/-- A dictionary of texts and booleans. -/
theorem dictionaries_flat {fields : Entries} (hkeys : (keys fields).Nodup)
    (hflat : ∀ e ∈ fields, (∃ s, e.2 = .string s) ∨ ∃ b, e.2 = .boolean b) :
    (Value.map fields).Dictionaries := by
  refine .map hkeys fun e he => ?_
  rcases hflat e he with ⟨s, h⟩ | ⟨b, h⟩ <;> rw [h]
  · exact Value.everywhere_string
  · exact Value.everywhere_boolean

namespace AdData

/-- The dictionary of `publishButton`, entry by entry. -/
def entries (ad : AdData) : Entries :=
  [(K.descriptionField, .string ad.description),
   (K.isFavorites, .boolean ad.isFavorites),
   (K.documentID, .string ad.documentID),
   (K.locationField, .string ad.location),
   (K.gpsLocationLat, .string ad.gpsLocationLat),
   (K.gpsLocationLong, .string ad.gpsLocationLong),
   (K.sortDistance, .string ad.sortDistance),
   (K.phoneField, .string ad.phone),
   (K.imageAds, .string ad.image),
   (K.priceField, .string ad.price),
   (K.titleField, .string ad.title),
   (K.mailField, .string ad.mail)]

theorem dictionary_entries (ad : AdData) : dictionary ad.entries = ad.fields := rfl

theorem entries_flat (ad : AdData) (e : String × Value) (he : e ∈ ad.entries) :
    (∃ s, e.2 = .string s) ∨ ∃ b, e.2 = .boolean b := by
  simp only [entries, List.mem_cons, List.not_mem_nil, or_false] at he
  rcases he with rfl | rfl | rfl | rfl | rfl | rfl | rfl | rfl | rfl | rfl | rfl | rfl <;> simp

theorem entries_dictionaries (ad : AdData) : (Value.map ad.entries).Dictionaries :=
  dictionaries_flat (show schemaFields.Nodup by decide) ad.entries_flat

end AdData

def markEntries (key : String) : Entries := [(key, .string "")]

theorem markEntries_dictionaries (key : String) : (Value.map (markEntries key)).Dictionaries :=
  dictionaries_flat (List.nodup_singleton _) (by simp [markEntries])

/-- The mutation that `FIRDocumentReference` writes, `addDocument` through `setData`. -/
def Write.mutation : Write → Except String Mutation
  | .setData id key => do
    let parsed ← parsedMergeData (markEntries key.name) (markEntries_dictionaries key.name)
    return parsed.ToMutation id .None
  | .updateData id key => do
    let parsed ← parsedUpdateData [(key.name, none)]
    return parsed.ToMutation id (.Exists true)
  | .delete id => return .Delete id .None
  | .addDocument id data => do
    let parsed ← parsedSetData data.entries data.entries_dictionaries
    return parsed.ToMutation id .None

/-- The fields of a document, as the queries and the loaders see them. -/
def ObjectValue.view (o : ObjectValue) : Fields := fun field => o.Get [field]

section Refinement

variable {w : Write} {m : Mutation} {o : ObjectValue} {key : String} {path : FieldPath}

theorem view_eq : o.view = fun field => find field o.fields := by
  funext field
  rw [ObjectValue.view, ObjectValue.Get, Get.loop, FindEntry]
  cases find field o.fields <;> rfl

theorem dictionary_eq_find (input : Entries) : dictionary input = fun field => find field input := by
  funext field
  rw [dictionary]
  induction input with
  | nil => rfl
  | cons e input ih =>
    rw [find_cons, List.lookup_cons, ih]
    by_cases he : e.1 = field
    · simp [he]
    · rw [if_neg he, beq_false_of_ne (Ne.symm he)]

theorem view_new {input : Entries} (h : (Value.map input).Dictionaries)
    (hflat : ∀ e ∈ input, SortFields e.2 = e.2) :
    (ObjectValue.new input h).view = dictionary input := by
  have hprepared : input.map (fun e => (e.1, SortFields e.2)) = input.map id :=
    List.map_congr_left fun e he => Prod.ext rfl (hflat e he)
  have hfields : (ObjectValue.new input h).fields = input.mergeSort keyLe :=
    congrArg (fun l : Entries => l.mergeSort keyLe) (hprepared.trans (List.map_id input))
  rw [view_eq, hfields, dictionary_eq_find]
  funext field
  exact (find_perm (Value.everywhere_map.mp h).1 (List.mergeSort_perm _ _).symm).symm

/-- A patch of one top-level field changes this field of the view. -/
theorem view_patched {o' : ObjectValue} {v : Option UserData}
    (h : Patched (fun p w => p = [key] ∧ w = v) o o') :
    o'.view = Function.update o.view key (v.map fun w => SortFields w.1) := by
  funext field
  by_cases hfield : field = key
  · subst hfield
    rw [Function.update_self]
    cases v with
    | none => exact h.deleted [field] ⟨rfl, rfl⟩ []
    | some w => exact h.set [field] w ⟨rfl, rfl⟩ []
  · rw [Function.update_of_ne hfield]
    refine h.others [field] fun p w hp => ?_
    rw [hp.1]
    exact apart_cons (Ne.symm hfield)

theorem data_getD (doc : MutableDocument) :
    (doc.data?.map ObjectValue.view).getD (fun _ => none) = doc.value.view := by
  by_cases hfound : doc.document_type = .kFoundDocument
  · simp [MutableDocument.data?, MutableDocument.is_found_document, hfound]
  · rw [doc.noData hfound]
    simp only [MutableDocument.data?, MutableDocument.is_found_document, beq_iff_eq, hfound,
      if_false, Option.map_none, Option.getD_none]
    rw [view_eq]
    rfl

theorem mark_patched (key : String) (o : ObjectValue) :
    let data := ObjectValue.new (markEntries key) (markEntries_dictionaries key)
    Patched (fun p w => p = [key] ∧ w = some emptyText) o
      (o.SetAll (Mutation.GetPatch data data.ToFieldMask)) := by
  dsimp only
  have hfields : (ObjectValue.new (markEntries key) (markEntries_dictionaries key)).fields =
      [(key, .string "")] := List.mergeSort_singleton _
  have hmask : (ObjectValue.new (markEntries key) (markEntries_dictionaries key)).ToFieldMask =
      {[key]} := by
    rw [ToFieldMask, hfields]
    simp [ExtractFieldMask, ExtractFieldMask.entry]
  have hclone : (ObjectValue.new (markEntries key) (markEntries_dictionaries key)).clone [key] =
      some emptyText := by
    rw [clone_eq_some, ObjectValue.Get, hfields, Get.loop, FindEntry, find_cons, if_pos rfl]
    rfl
  have hentries : (fun p w => p = [key] ∧ w = some emptyText) = fun p w =>
      p ∈ (ObjectValue.new (markEntries key) (markEntries_dictionaries key)).ToFieldMask ∧
        w = (ObjectValue.new (markEntries key) (markEntries_dictionaries key)).clone p := by
    funext p w
    rw [hmask, Finset.mem_singleton]
    by_cases hp : p = [key]
    · rw [hp, hclone]
    · simp [hp]
  rw [hentries]
  exact leaves_patched _ o

/-- The patch of `updateData([key: FieldValue.delete()])`. -/
theorem parsedUpdateData_delete {parsed : ParsedData}
    (h : parsedUpdateData [(key, none)] = .ok parsed) :
    ∃ path, FieldPath.FromDotSeparatedString key = .ok path ∧
      parsed = ⟨ObjectValue.empty, some {path}⟩ := by
  obtain ⟨path, hpath, h⟩ := bind_eq_ok h
  cases h
  exact ⟨path, hpath, rfl⟩

theorem unmark_patched (hpath : path ≠ []) (o : ObjectValue) :
    Patched (fun p w => p = path ∧ w = none) o
      (o.SetAll (Mutation.GetPatch .empty {path})) := by
  have hclone : ObjectValue.empty.clone path = none := by
    rw [clone_eq_none]
    cases path with
    | nil => contradiction
    | cons segment path => rfl
  have hentries : (fun p w => p = path ∧ w = none) = fun p w =>
      p ∈ ({path} : Finset FieldPath) ∧ w = ObjectValue.empty.clone p := by
    funext p w
    rw [Finset.mem_singleton]
    by_cases hp : p = path
    · rw [hp, hclone]
    · simp [hp]
  rw [hentries]
  refine getPatch_patched ?_ ?_ ?_
  · simpa using Ne.symm hpath
  · simp
  · simp

theorem exists_apply {value : ObjectValue} {mask : Finset FieldPath} {doc : MutableDocument}
    {id : DocID} (hfound : doc.is_found_document = true) :
    (Mutation.Patch id value mask (.Exists true)).ApplyToLocalView doc =
      (MutableDocument.ConvertToFoundDocument (Mutation.GetPostMutationVersion doc)
        (doc.value.SetAll (Mutation.GetPatch value mask))).SetHasLocalMutations := by
  rw [Mutation.ApplyToLocalView, Mutation.precondition, Precondition.IsValidFor, hfound]
  rfl

/-- On the local view of its document the mutation of a write does what the write does. -/
theorem mutation_refines (hm : w.mutation = .ok m) (doc : MutableDocument) :
    ((m.ApplyToLocalView doc).data?).map ObjectValue.view =
      (w.document (doc.data?.map ObjectValue.view)).getD (doc.data?.map ObjectValue.view) := by
  cases w with
  | setData id key =>
    obtain ⟨parsed, hparsed, hm⟩ := bind_eq_ok hm
    cases hm
    rw [merge_apply hparsed, Write.document, Option.getD_some, data_getD]
    exact congrArg some (view_patched (mark_patched key.name doc.value))
  | updateData id key =>
    obtain ⟨parsed, hparsed, hm⟩ := bind_eq_ok hm
    cases hm
    obtain ⟨path, hpath, rfl⟩ := parsedUpdateData_delete hparsed
    rw [FieldPath.fromDotSeparatedString_noDot key.noDot hpath]
    have hpatched := view_patched (unmark_patched (List.cons_ne_nil key.name []) doc.value)
    cases hfound : doc.is_found_document with
    | false =>
      have hdoc : (Mutation.Patch id .empty {[key.name]} (.Exists true)).ApplyToLocalView doc =
          doc := by
        rw [Mutation.ApplyToLocalView, Mutation.precondition, Precondition.IsValidFor, hfound]
        rfl
      have hdata : doc.data? = none := by rw [MutableDocument.data?, hfound]; rfl
      rw [ParsedData.ToMutation, hdoc, hdata]
      rfl
    | true =>
      have hdata : doc.data? = some doc.value := by rw [MutableDocument.data?, hfound]; rfl
      rw [ParsedData.ToMutation, exists_apply hfound, hdata]
      exact congrArg some hpatched
  | delete id =>
    cases hm
    rfl
  | addDocument id data =>
    obtain ⟨parsed, hparsed, hm⟩ := bind_eq_ok hm
    cases hm
    obtain ⟨_, -, hparsed⟩ := bind_eq_ok hparsed
    cases hparsed
    refine congrArg some ((view_new data.entries_dictionaries fun e he => ?_).trans
      data.dictionary_entries)
    rcases data.entries_flat e he with ⟨s, h⟩ | ⟨b, h⟩ <;> rw [h] <;> rfl

/-- Bob's mark on an ad in the cache. -/
theorem mutation_refines_bob : ∃ m, (Write.setData 1 bob.uid).mutation = .ok m ∧
    ((m.ApplyToLocalView markedCached).data?).map ObjectValue.view =
      ((Write.setData 1 bob.uid).document (markedCached.data?.map ObjectValue.view)).getD
        (markedCached.data?.map ObjectValue.view) :=
  ⟨_, rfl, mutation_refines rfl markedCached⟩

/-- Whatever the key, where both calls are accepted `updateData` takes the mark away that `setData`
has written exactly when the key has no dot. -/
theorem unmark_iff {marked unmarked : ParsedData}
    (hmark : parsedMergeData (markEntries key) (markEntries_dictionaries key) = .ok marked)
    (hunmark : parsedUpdateData [(key, none)] = .ok unmarked) (id : DocID) (doc : MutableDocument) :
    ((unmarked.ToMutation id (.Exists true)).ApplyToLocalView
      ((marked.ToMutation id .None).ApplyToLocalView doc)).value.Get [key] = none ↔
      '.' ∉ key.toList := by
  obtain ⟨path, hpath, rfl⟩ := parsedUpdateData_delete hunmark
  obtain ⟨hne, hsegments⟩ := FieldPath.fromDotSeparatedString_segments hpath
  rw [merge_apply hmark, ParsedData.ToMutation, exists_apply rfl]
  have hmarked := (mark_patched key doc.value).set [key] emptyText ⟨rfl, rfl⟩ []
  have hunmarked := unmark_patched hne (doc.value.SetAll (Mutation.GetPatch
    (ObjectValue.new (markEntries key) (markEntries_dictionaries key))
    (ObjectValue.new (markEntries key) (markEntries_dictionaries key)).ToFieldMask))
  constructor
  · intro hgone hdot
    have hapart : Apart path [key] := by
      cases path with
      | nil => contradiction
      | cons segment path =>
        refine apart_cons fun hsegment => ?_
        exact hsegments segment List.mem_cons_self (hsegment ▸ hdot)
    have hkept := hunmarked.others [key] fun p w hp => hp.1 ▸ hapart
    rw [List.append_nil] at hmarked
    have hsome := hgone.symm.trans (hkept.trans hmarked)
    contradiction
  · intro hdot
    obtain rfl := FieldPath.fromDotSeparatedString_noDot hdot hpath
    exact hunmarked.deleted [key] ⟨rfl, rfl⟩ []

/-- A mark under a key with a dot stays. -/
theorem unmark_iff_dot : ∃ marked unmarked,
    parsedMergeData (markEntries "uid.Bob") (markEntries_dictionaries "uid.Bob") = .ok marked ∧
      parsedUpdateData [("uid.Bob", none)] = .ok unmarked ∧
        ((unmarked.ToMutation 1 (.Exists true)).ApplyToLocalView
          ((marked.ToMutation 1 .None).ApplyToLocalView markedCached)).value.Get ["uid.Bob"] ≠
            none := by
  refine ⟨_, _, rfl, rfl, fun hgone => ?_⟩
  exact absurd ((unmark_iff rfl rfl 1 markedCached).mp hgone) (by decide)

end Refinement

end VoisinMalin
