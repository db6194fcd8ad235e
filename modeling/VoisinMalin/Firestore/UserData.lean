import VoisinMalin.Firestore.Patch
import Mathlib.Data.List.Lex

/-! How `FSTUserDataReader` takes the dictionaries of `setData` and `updateData`: it checks the field
names, gathers the paths of the leaves in a field mask and leaves the values to `ObjectValue`. The
dictionaries have no `FieldValue` but the deletes at the top of `updateData`, no reference to another
database and no value of a class that Firestore does not store. -/

namespace VoisinMalin

open SortedMap

inductive UserDataSource where
  | Set | MergeSet | Update | Argument | ArrayArgument
deriving DecidableEq

structure ParseContext where
  data_source : UserDataSource
  path : Option FieldPath
  array_element : Bool

namespace ParseContext

def write (context : ParseContext) : Bool :=
  match context.data_source with
  | .Set | .MergeSet | .Update => true
  | .Argument | .ArrayArgument => false

def RootContext (data_source : UserDataSource) : ParseContext := ⟨data_source, some [], false⟩

def FieldDescription (context : ParseContext) : String :=
  match context.path with
  | none | some [] => ""
  | some path => " (found in field " ++ FieldPath.CanonicalString path ++ ")"

/-- Names that begin and end with `RESERVED_FIELD_DESIGNATOR`. -/
def Reserved (segment : String) : Bool :=
  ['_', '_'].isPrefixOf segment.toList && ['_', '_'].isSuffixOf segment.toList

def ValidatePathSegment (context : ParseContext) (segment : String) : Except String Unit :=
  if segment = "" then
    .error ("Invalid data. Document fields must not be empty" ++ context.FieldDescription)
  else if context.write && Reserved segment then
    .error ("Invalid data. Document fields cannot begin and end with \"__\"" ++
      context.FieldDescription)
  else .ok ()

/-- `ChildContext` for a field name. -/
def ChildContext (context : ParseContext) (field_name : String) : Except String ParseContext := do
  let child : ParseContext :=
    ⟨context.data_source, context.path.map (· ++ [field_name]), false⟩
  child.ValidatePathSegment field_name
  return child

/-- `ChildContext` for an array index. -/
def ArrayContext (context : ParseContext) : ParseContext := ⟨context.data_source, none, true⟩

/-- What `AddToFieldMask` adds for the path of the context. -/
def mask (context : ParseContext) : Finset FieldPath :=
  match context.path with
  | some path => {path}
  | none => ∅

end ParseContext

def LLONG_MAX : Int := 9223372036854775807

/-- `parseScalarValue`: an unsigned number may be too large for a signed one. -/
def parseScalarValue (context : ParseContext) : Value → Except String Unit
  | .integer n =>
    if n > LLONG_MAX then
      .error ("NSNumber (" ++ toString n ++ ") is too large" ++ context.FieldDescription)
    else .ok ()
  | _ => .ok ()

mutual

/-- The field mask that `parseData` gathers. What it returns is the value itself. -/
def parseData (context : ParseContext) : Value → Except String (Finset FieldPath)
  | .map [] => return if context.path = some [] then ∅ else context.mask
  | .map (e :: fields) => parseDictionary context (e :: fields)
  | .array values =>
    if context.array_element && context.data_source != .ArrayArgument then
      .error "Nested arrays are not supported"
    else do return context.mask ∪ (← parseArray context values)
  | v => do
    parseScalarValue context v
    return context.mask

def parseDictionary (context : ParseContext) :
    List (String × Value) → Except String (Finset FieldPath)
  | [] => return ∅
  | (key, v) :: fields => do
    let child ← context.ChildContext key
    let mask ← parseData child v
    return mask ∪ (← parseDictionary context fields)

def parseArray (context : ParseContext) : List Value → Except String (Finset FieldPath)
  | [] => return ∅
  | v :: values => do
    let mask ← parseData context.ArrayContext v
    return mask ∪ (← parseArray context values)

end

/-- `ChildContext` for a field path. -/
def ParseContext.PathContext (context : ParseContext) (field_path : FieldPath) :
    Except String ParseContext := do
  let child : ParseContext := ⟨context.data_source, context.path.map (· ++ field_path), false⟩
  (child.path.getD []).forM child.ValidatePathSegment
  return child

/-- The constructor from a value, which sorts its fields. -/
def ObjectValue.new (fields : Entries) (h : (Value.map fields).Dictionaries) : ObjectValue where
  fields := (fields.map fun e => (e.1, SortFields e.2)).mergeSort keyLe
  inOrder := sortFields_map ▸ sortFields_inOrder h

/-- The data of a write and, where it is a patch, its field mask. -/
structure ParsedData where
  data : ObjectValue
  field_mask : Option (Finset FieldPath)

def parsedSetData (input : Entries) (h : (Value.map input).Dictionaries) :
    Except String ParsedData := do
  let _ ← parseData (.RootContext .Set) (.map input)
  return ⟨ObjectValue.new input h, none⟩

/-- Without the argument `mergeFields`. -/
def parsedMergeData (input : Entries) (h : (Value.map input).Dictionaries) :
    Except String ParsedData := do
  let mask ← parseData (.RootContext .MergeSet) (.map input)
  return ⟨ObjectValue.new input h, some mask⟩

/-- The loop over the dictionary of `updateData`, in which `none` stands for `FieldValue.delete()`. -/
def parsedUpdateData.loop (data : ObjectValue) (mask : Finset FieldPath) :
    List (String × Option UserData) → Except String ParsedData
  | [] => return ⟨data, some mask⟩
  | (key, none) :: input => do
    let path ← FieldPath.FromDotSeparatedString key
    loop data (insert path mask) input
  | (key, some value) :: input => do
    let path ← FieldPath.FromDotSeparatedString key
    let child ← (ParseContext.RootContext .Update).PathContext path
    let nested ← parseData child value.1
    loop (data.Set path value) (insert path (mask ∪ nested)) input

def parsedUpdateData (input : List (String × Option UserData)) : Except String ParsedData :=
  parsedUpdateData.loop ⟨[], inOrder_nil⟩ ∅ input

namespace ObjectValue

mutual

/-- The paths that `ExtractFieldMask` inserts for one entry. -/
def ExtractFieldMask.entry (key : String) : Value → Finset FieldPath
  | .map fields =>
    let nested_mask := ExtractFieldMask fields
    if nested_mask = ∅ then {[key]} else nested_mask.image (key :: ·)
  | _ => {[key]}

def ExtractFieldMask : List (String × Value) → Finset FieldPath
  | [] => ∅
  | (key, v) :: fields => ExtractFieldMask.entry key v ∪ ExtractFieldMask fields

end

def ToFieldMask (o : ObjectValue) : Finset FieldPath := ExtractFieldMask o.fields

end ObjectValue

section Mask

open ObjectValue

variable {context child : ParseContext} {p q : FieldPath} {key : String} {v : Value}
  {fields : Entries} {m : Finset FieldPath}

theorem bind_eq_ok {ε α β : Type} {x : Except ε α} {f : α → Except ε β} {b : β}
    (h : x >>= f = .ok b) : ∃ a, x = .ok a ∧ f a = .ok b := by
  cases x with
  | error e => contradiction
  | ok a => exact ⟨a, rfl, h⟩

theorem childContext_path (h : context.ChildContext key = .ok child) (hpath : context.path = some p) :
    child.path = some (p ++ [key]) := by
  obtain ⟨_, -, hchild⟩ := bind_eq_ok h
  cases hchild
  rw [hpath, Option.map_some]

theorem extractFieldMask_nonempty (h : fields ≠ []) : ExtractFieldMask fields ≠ ∅ := by
  cases fields with
  | nil => contradiction
  | cons e fields =>
    rw [ExtractFieldMask, Ne, Finset.union_eq_empty, not_and_or]
    left
    cases e.2 <;> rw [ExtractFieldMask.entry] <;> try simp
    split <;> simp_all

theorem parseData_scalar (hmap : ∀ fields, v ≠ .map fields) (harray : ∀ values, v ≠ .array values) :
    parseData context v = parseScalarValue context v >>= fun _ => .ok context.mask := by
  cases v with
  | map fields => exact absurd rfl (hmap fields)
  | array values => exact absurd rfl (harray values)
  | _ => rfl

theorem parseDictionary_none
    (hfields : ∀ e ∈ fields, ∀ {context m}, context.path = none →
      parseData context e.2 = .ok m → m = ∅)
    (hpath : context.path = none) (h : parseDictionary context fields = .ok m) : m = ∅ := by
  induction fields generalizing m with
  | nil =>
    cases h
    rfl
  | cons e fields ih =>
    obtain ⟨child, hchild, h⟩ := bind_eq_ok h
    obtain ⟨first, hfirst, h⟩ := bind_eq_ok h
    obtain ⟨rest, hrest, h⟩ := bind_eq_ok h
    cases h
    obtain ⟨_, -, hctx⟩ := bind_eq_ok hchild
    cases hctx
    rw [hfields e List.mem_cons_self (by rw [hpath]; rfl) hfirst,
      ih (fun e he => hfields e (List.mem_cons_of_mem _ he)) hrest, Finset.union_empty]

theorem parseArray_none {values : List Value}
    (hvalues : ∀ v ∈ values, ∀ {context m}, context.path = none →
      parseData context v = .ok m → m = ∅)
    (h : parseArray context values = .ok m) : m = ∅ := by
  induction values generalizing m with
  | nil =>
    cases h
    rfl
  | cons v values ih =>
    obtain ⟨first, hfirst, h⟩ := bind_eq_ok h
    obtain ⟨rest, hrest, h⟩ := bind_eq_ok h
    cases h
    rw [hvalues v List.mem_cons_self rfl hfirst,
      ih (fun v hv => hvalues v (List.mem_cons_of_mem _ hv)) hrest, Finset.union_empty]

/-- In an array nothing is added to the field mask. -/
theorem parseData_none (hv : v.Dictionaries) (hpath : context.path = none)
    (h : parseData context v = .ok m) : m = ∅ := by
  induction hv generalizing context m with
  | @map fields _ _ ih =>
    cases fields with
    | nil =>
      cases h
      simp [hpath, ParseContext.mask]
    | cons e fields => exact parseDictionary_none (fun e he _ _ => ih e he) hpath h
  | array _ ih =>
    rw [parseData] at h
    split at h
    · contradiction
    · obtain ⟨rest, hrest, h⟩ := bind_eq_ok h
      cases h
      rw [parseArray_none (fun v hv _ _ => ih v hv) hrest]
      simp [hpath, ParseContext.mask]
  | scalar hmap harray =>
    rw [parseData_scalar hmap harray] at h
    obtain ⟨_, -, h⟩ := bind_eq_ok h
    cases h
    simp [hpath, ParseContext.mask]

theorem parseDictionary_mask (hfields : ∀ e ∈ fields, ∀ {context q key m},
      context.path = some (q ++ [key]) → parseData context e.2 = .ok m →
        m = (ExtractFieldMask.entry key e.2).image (q ++ ·))
    (hpath : context.path = some p) (h : parseDictionary context fields = .ok m) :
    m = (ExtractFieldMask fields).image (p ++ ·) := by
  induction fields generalizing m with
  | nil =>
    cases h
    rfl
  | cons e fields ih =>
    obtain ⟨child, hchild, h⟩ := bind_eq_ok h
    obtain ⟨first, hfirst, h⟩ := bind_eq_ok h
    obtain ⟨rest, hrest, h⟩ := bind_eq_ok h
    cases h
    rw [hfields e List.mem_cons_self (childContext_path hchild hpath) hfirst,
      ih (fun e he => hfields e (List.mem_cons_of_mem _ he)) hrest, ExtractFieldMask,
      Finset.image_union]

/-- Outside arrays the reader gathers the paths of `ExtractFieldMask`. -/
theorem parseData_mask (hv : v.Dictionaries) (hpath : context.path = some (q ++ [key]))
    (h : parseData context v = .ok m) : m = (ExtractFieldMask.entry key v).image (q ++ ·) := by
  induction hv generalizing context q key m with
  | @map fields _ _ ih =>
    cases fields with
    | nil =>
      cases h
      simp [hpath, ParseContext.mask, ExtractFieldMask.entry, ExtractFieldMask]
    | cons e fields =>
      have hmask := parseDictionary_mask (fun e he _ _ _ _ => ih e he) hpath h
      rw [hmask, ExtractFieldMask.entry, if_neg (extractFieldMask_nonempty (by simp)),
        Finset.image_image]
      simp [Function.comp_def]
  | array hvalues =>
    rw [parseData] at h
    split at h
    · contradiction
    · obtain ⟨rest, hrest, h⟩ := bind_eq_ok h
      cases h
      rw [parseArray_none (fun v hv _ _ => parseData_none (hvalues v hv)) hrest]
      simp [hpath, ParseContext.mask, ExtractFieldMask.entry]
  | @scalar v hmap harray =>
    rw [parseData_scalar hmap harray] at h
    obtain ⟨_, -, h⟩ := bind_eq_ok h
    cases h
    have hentry : ExtractFieldMask.entry key v = {[key]} := by
      cases v with
      | map fields => exact absurd rfl (hmap fields)
      | _ => rfl
    simp [hpath, hentry, ParseContext.mask]

theorem mem_extractFieldMask :
    p ∈ ExtractFieldMask fields ↔ ∃ e ∈ fields, p ∈ ExtractFieldMask.entry e.1 e.2 := by
  induction fields with
  | nil => simp [ExtractFieldMask]
  | cons e fields ih => rw [ExtractFieldMask, Finset.mem_union, ih]; simp

theorem mem_entry : p ∈ ExtractFieldMask.entry key v ↔
    ((∀ e nested, v ≠ .map (e :: nested)) ∧ p = [key]) ∨
      ∃ nested r, v = .map nested ∧ r ∈ ExtractFieldMask nested ∧ p = key :: r := by
  cases v with
  | map nested =>
    rw [ExtractFieldMask.entry]
    cases nested with
    | nil => simp [ExtractFieldMask]
    | cons e nested =>
      rw [if_neg (extractFieldMask_nonempty (by simp))]
      simp [eq_comm]
  | _ => simp [ExtractFieldMask.entry]

theorem leaf_ne_nil (hp : p ∈ ExtractFieldMask fields) : p ≠ [] := by
  obtain ⟨e, -, hentry⟩ := mem_extractFieldMask.mp hp
  rcases mem_entry.mp hentry with ⟨-, rfl⟩ | ⟨_, _, -, -, rfl⟩ <;> simp

theorem apart_cons {k k' : String} (h : k ≠ k') : Apart (k :: p) (k' :: q) :=
  ⟨fun hp => h (List.cons_prefix_cons.mp hp).1, fun hq => h (List.cons_prefix_cons.mp hq).1.symm⟩

/-- The leaves of a dictionary lie apart. -/
theorem leaves_apart (hv : (Value.map fields).Dictionaries) (hp : p ∈ ExtractFieldMask fields)
    (hq : q ∈ ExtractFieldMask fields) : p = q ∨ Apart p q := by
  induction p generalizing q fields with
  | nil => exact absurd rfl (leaf_ne_nil hp)
  | cons k p ih =>
    obtain ⟨hkeys, hvalues⟩ := Value.everywhere_map.mp hv
    obtain ⟨e, he, hpe⟩ := mem_extractFieldMask.mp hp
    obtain ⟨f, hf, hqf⟩ := mem_extractFieldMask.mp hq
    by_cases hkey : e.1 = f.1
    · obtain rfl := List.inj_on_of_nodup_map hkeys he hf hkey
      rcases mem_entry.mp hpe with ⟨hleaf, hp'⟩ | ⟨nested, r, hmap, hr, hp'⟩ <;>
        rcases mem_entry.mp hqf with ⟨hleaf', hq'⟩ | ⟨nested', r', hmap', hr', hq'⟩
      · exact Or.inl (hp'.trans hq'.symm)
      · cases nested' with
        | nil => simp [ExtractFieldMask] at hr'
        | cons e' nested' => exact absurd hmap' (hleaf e' nested')
      · cases nested with
        | nil => simp [ExtractFieldMask] at hr
        | cons e' nested => exact absurd hmap (hleaf' e' nested)
      · rw [hmap] at hmap'
        cases hmap'
        cases hp'
        rw [hq']
        rcases ih (hmap ▸ hvalues e he) hr hr' with rfl | hapart
        · exact Or.inl rfl
        · exact Or.inr ⟨fun h => hapart.1 (List.cons_prefix_cons.mp h).2,
            fun h => hapart.2 (List.cons_prefix_cons.mp h).2⟩
    · right
      rcases mem_entry.mp hpe with ⟨-, hp'⟩ | ⟨_, _, -, -, hp'⟩ <;>
        rcases mem_entry.mp hqf with ⟨-, hq'⟩ | ⟨_, _, -, -, hq'⟩ <;> rw [hp', hq'] <;>
        exact apart_cons hkey

theorem extractFieldMask_sort
    (h : ∀ e ∈ fields, ∀ key, ExtractFieldMask.entry key (SortFields e.2) =
      ExtractFieldMask.entry key e.2) :
    ExtractFieldMask ((fields.map fun e => (e.1, SortFields e.2)).mergeSort keyLe) =
      ExtractFieldMask fields := by
  ext p
  simp only [mem_extractFieldMask, List.mem_mergeSort, List.mem_map]
  constructor
  · rintro ⟨_, ⟨e, he, rfl⟩, hp⟩
    exact ⟨e, he, h e he e.1 ▸ hp⟩
  · rintro ⟨e, he, hp⟩
    exact ⟨_, ⟨e, he, rfl⟩, (h e he e.1).symm ▸ hp⟩

/-- Sorting the fields leaves the leaves as they are. -/
theorem entry_sortFields (hv : v.Dictionaries) (key : String) :
    ExtractFieldMask.entry key (SortFields v) = ExtractFieldMask.entry key v := by
  induction hv generalizing key with
  | map _ _ ih =>
    rw [sortFields_map, ExtractFieldMask.entry, ExtractFieldMask.entry, extractFieldMask_sort ih]
  | array _ _ => rw [SortFields, ExtractFieldMask.entry, ExtractFieldMask.entry] <;> simp
  | scalar hmap harray => rw [sortFields_scalar hmap harray]

theorem get_leaf (hv : (Value.map fields).InOrder) (hp : p ∈ ExtractFieldMask fields) :
    ∃ w, Get.loop p (.map fields) = some w := by
  induction p generalizing fields with
  | nil => exact ⟨_, rfl⟩
  | cons k p ih =>
    obtain ⟨hsorted, hvalues⟩ := Value.everywhere_map.mp hv
    obtain ⟨e, he, hentry⟩ := mem_extractFieldMask.mp hp
    have hfind := find_of_mem hsorted he
    rcases mem_entry.mp hentry with ⟨-, h⟩ | ⟨nested, r, hmap, hr, h⟩
    · cases h
      exact ⟨e.2, by rw [Get.loop, FindEntry, hfind]; rfl⟩
    · cases h
      obtain ⟨w, hw⟩ := ih (hmap ▸ hvalues e he) hr
      refine ⟨w, ?_⟩
      rw [Get.loop, FindEntry, hfind, hmap]
      exact hw

theorem new_toFieldMask {input : Entries} (h : (Value.map input).Dictionaries) :
    (ObjectValue.new input h).ToFieldMask = ExtractFieldMask input :=
  extractFieldMask_sort fun e he => entry_sortFields ((Value.everywhere_map.mp h).2 e he)

/-- The field mask of a merge is the one that `ToFieldMask` finds in its data. -/
theorem parsedMergeData_mask {input : Entries} {h : (Value.map input).Dictionaries}
    {parsed : ParsedData} (hparsed : parsedMergeData input h = .ok parsed) :
    parsed.data = ObjectValue.new input h ∧ parsed.field_mask = some parsed.data.ToFieldMask := by
  obtain ⟨m, hm, hparsed⟩ := bind_eq_ok hparsed
  cases hparsed
  refine ⟨rfl, congrArg some ?_⟩
  rw [new_toFieldMask]
  cases input with
  | nil =>
    cases hm
    rfl
  | cons e fields =>
    rw [parseDictionary_mask (fun e he _ _ _ _ =>
      parseData_mask ((Value.everywhere_map.mp h).2 e he)) (p := []) rfl hm]
    simp

end Mask

end VoisinMalin
