import VoisinMalin.Library.Text
import Mathlib.Data.List.Basic
import Mathlib.Logic.Function.Basic

/-! The data of the app: the field names of an ad document, Firestore values and the casts that the
controllers apply to them, the ad that a screen holds, the document that the creation form writes,
users with the key of their favourite marks, and the checks of StringExtension on what is typed. A
document is the value at each field name, if it has that field. The type of `sortDistance` and the set
of letters are parameters. -/

namespace VoisinMalin

namespace K

def titleField := "Title"
def locationField := "Location"
def imageAds := "Image"
def descriptionField := "Description"
def priceField := "Price"
def phoneField := "Phone"
def mailField := "Mail"
def documentID := "documentID"
def gpsLocationLat := "gpsLocationLat"
def gpsLocationLong := "gpsLocationLong"
def sortDistance := "sortDistance"
def isFavorites := "isFavorites"

end K

/-- A Firestore field value, one constructor for each type that `FSTUserDataWriter` converts.
Doubles are kept as their bits. -/
inductive Value where
  | null
  | boolean (b : Bool)
  | integer (n : Int)
  | double (bits : UInt64)
  | timestamp (seconds : Int) (nanos : Nat)
  | string (s : String)
  | blob (bytes : List UInt8)
  | reference (path : String)
  | geoPoint (latitude longitude : UInt64)
  | array (values : List Value)
  | map (fields : List (String × Value))

namespace Value

def asString : Value → Option String
  | .string s => some s
  | _ => none

/-- `as? Bool`. Numbers reach Swift as `NSNumber`, whose bridge to `Bool` accepts 0 and 1. -/
def asBool : Value → Option Bool
  | .boolean b => some b
  | .integer n => if n = 0 then some false else if n = 1 then some true else none
  | .double bits =>
    if bits = 0 ∨ bits = 0x8000000000000000 then some false
    else if bits = 0x3FF0000000000000 then some true else none
  | _ => none

theorem asString_eq_some {v : Value} {s : String} : v.asString = some s ↔ v = .string s := by
  cases v <;> simp [asString]

end Value

abbrev Fields := String → Option Value

abbrev DeviceID := Nat

def Fields.string? (data : Fields) (field : String) : Option String :=
  (data field).bind Value.asString

theorem Fields.string?_eq_some {data : Fields} {field s : String} :
    data.string? field = some s ↔ data field = some (.string s) := by
  simp [Fields.string?, Option.bind_eq_some_iff, Value.asString_eq_some]

def dictionary (entries : List (String × Value)) : Fields := fun field => entries.lookup field

structure DefaultAds (Double : Type) where
  title : String
  price : String
  location : String
  image : String
  description : String
  phone : String
  mail : String
  documentID : String
  gpsLocationLat : String
  gpsLocationLong : String
  sortDistance : Double
  isFavotites : Bool
deriving DecidableEq

/-- `data` is the document of `ad`: its text fields are those of `ad`. -/
structure Shows {Double : Type} (data : Fields) (ad : DefaultAds Double) : Prop where
  title : data K.titleField = some (.string ad.title)
  price : data K.priceField = some (.string ad.price)
  location : data K.locationField = some (.string ad.location)
  image : data K.imageAds = some (.string ad.image)
  description : data K.descriptionField = some (.string ad.description)
  phone : data K.phoneField = some (.string ad.phone)
  mail : data K.mailField = some (.string ad.mail)
  documentID : data K.documentID = some (.string ad.documentID)
  gpsLocationLat : data K.gpsLocationLat = some (.string ad.gpsLocationLat)
  gpsLocationLong : data K.gpsLocationLong = some (.string ad.gpsLocationLong)

structure AdData where
  description : String
  isFavorites : Bool
  documentID : String
  location : String
  gpsLocationLat : String
  gpsLocationLong : String
  sortDistance : String
  phone : String
  image : String
  price : String
  title : String
  mail : String
deriving DecidableEq

/-- The dictionary that `publishButton` passes to `addDocument(data:)`. -/
def AdData.fields (ad : AdData) : Fields := dictionary
  [(K.descriptionField, .string ad.description),
   (K.isFavorites, .boolean ad.isFavorites),
   (K.documentID, .string ad.documentID),
   (K.locationField, .string ad.location),
   (K.gpsLocationLat, .string ad.gpsLocationLat),
   (K.gpsLocationLong, .string ad.gpsLocationLong),
   (K.sortDistance, .string ad.sortDistance),
   (K.phoneField, .string ad.phone),
   (K.imageAds, .string ad.image),
   (K.priceField, .string ad.price),
   (K.titleField, .string ad.title),
   (K.mailField, .string ad.mail)]

/-- The ad that a screen holds for a published document. -/
def AdData.toAd {Double : Type} (ad : AdData) (sortDistance : Double) : DefaultAds Double where
  title := ad.title
  price := ad.price
  location := ad.location
  image := ad.image
  description := ad.description
  phone := ad.phone
  mail := ad.mail
  documentID := ad.documentID
  gpsLocationLat := ad.gpsLocationLat
  gpsLocationLong := ad.gpsLocationLong
  sortDistance := sortDistance
  isFavotites := ad.isFavorites

theorem AdData.fields_shows {Double : Type} (ad : AdData) (sortDistance : Double) :
    Shows ad.fields (ad.toAd sortDistance) :=
  ⟨rfl, rfl, rfl, rfl, rfl, rfl, rfl, rfl, rfl, rfl⟩

/-- An ad and two users for the runs on fixed inputs. -/
def AdData.sample (title documentID mail : String) : AdData where
  description := "Bon etat"
  isFavorites := false
  documentID := documentID
  location := "Paris"
  gpsLocationLat := "48.85"
  gpsLocationLong := "2.35"
  sortDistance := "Label"
  phone := "0600000000"
  image := "https://firebasestorage/image"
  price := "40"
  title := title
  mail := mail

def schemaFields : List String :=
  [K.descriptionField, K.isFavorites, K.documentID, K.locationField, K.gpsLocationLat,
   K.gpsLocationLong, K.sortDistance, K.phoneField, K.imageAds, K.priceField, K.titleField,
   K.mailField]

def Complete (data : Fields) : Prop := ∀ field ∈ schemaFields, (data field).isSome = true

theorem AdData.fields_complete (ad : AdData) : Complete ad.fields := by
  intro field hfield
  simp only [schemaFields, List.mem_cons, List.not_mem_nil, or_false] at hfield
  rcases hfield with rfl | rfl | rfl | rfl | rfl | rfl | rfl | rfl | rfl | rfl | rfl | rfl <;> rfl

/-- A key under which a favourite mark is stored. Firebase draws uids from letters and digits, and
the fallbacks of the controllers are two fixed texts: none is a schema field or a field path. -/
structure MarkKey where
  name : String
  notSchema : name ∉ schemaFields
  noDot : '.' ∉ name.toList
deriving DecidableEq

structure User where
  uid : MarkKey
  mail : String
deriving DecidableEq

def alice : User := ⟨⟨"uidAlice", by decide, by decide⟩, "alice@mail.fr"⟩

def bob : User := ⟨⟨"uidBob", by decide, by decide⟩, "bob@mail.fr"⟩

/-- `authService.currentUID ?? "oups"`, in the queries for marks. -/
def markOrOups (user : Option User) : MarkKey :=
  (user.map User.uid).getD ⟨"oups", by decide, by decide⟩

/-- `authService.currentUID ?? "???"`, in the writes of marks. -/
def markOrUnknown (user : Option User) : MarkKey :=
  (user.map User.uid).getD ⟨"???", by decide, by decide⟩

@[simp] theorem markOrOups_some (user : User) : markOrOups (some user) = user.uid := rfl

@[simp] theorem markOrUnknown_some (user : User) : markOrUnknown (some user) = user.uid := rfl

def Marked (key : MarkKey) (data : Fields) : Prop := data key.name = some (.string "")

section Mark

variable {Double : Type} {data : Fields} {ad : DefaultAds Double}

/-- A mark leaves the schema fields as they are. -/
theorem update_mark {field : String} (hfield : field ∈ schemaFields) (data : Fields) (key : MarkKey)
    (v : Option Value) : Function.update data key.name v field = data field := by
  rw [Function.update_of_ne]
  intro h
  exact key.notSchema (h ▸ hfield)

theorem Complete.update_mark (h : Complete data) (key : MarkKey) (v : Option Value) :
    Complete (Function.update data key.name v) := by
  intro field hfield
  rw [VoisinMalin.update_mark hfield]
  exact h field hfield

theorem Shows.update_mark (h : Shows data ad) (key : MarkKey) (v : Option Value) :
    Shows (Function.update data key.name v) ad := by
  constructor <;> rw [VoisinMalin.update_mark (by decide)]
  · exact h.title
  · exact h.price
  · exact h.location
  · exact h.image
  · exact h.description
  · exact h.phone
  · exact h.mail
  · exact h.documentID
  · exact h.gpsLocationLat
  · exact h.gpsLocationLong

end Mark

/-- Without its schema fields a document is not complete, whatever mark it has. -/
theorem not_complete_of_mark_only (key : MarkKey) (v : Option Value) :
    ¬Complete (Function.update (fun _ => none) key.name v) := by
  intro h
  have htitle : K.titleField ∈ schemaFields := by decide
  have hsome := h K.titleField htitle
  rw [update_mark htitle] at hsome
  simp at hsome

/-! ### Typed texts -/

open Trim

/-- `CharacterSet.whitespaces`: the space separators and the tabulation. -/
def whitespaces (c : Char) : Bool :=
  c.val = 0x9 ∨ c.val = 0x20 ∨ c.val = 0xA0 ∨ c.val = 0x1680 ∨
    (0x2000 ≤ c.val ∧ c.val ≤ 0x200A) ∨ c.val = 0x202F ∨ c.val = 0x205F ∨ c.val = 0x3000

def newlines (c : Char) : Bool :=
  (0xA ≤ c.val ∧ c.val ≤ 0xD) ∨ c.val = 0x85 ∨ c.val = 0x2028 ∨ c.val = 0x2029

def whitespacesAndNewlines (c : Char) : Bool := whitespaces c || newlines c

/-- `CharacterSet.letters`. Among the ASCII characters it has the letters alone. -/
structure Letters where
  contains : Char → Bool
  ascii : ∀ c, c.val < 0x80 → contains c = c.isAlpha

def trimmingCharacters (set : Char → Bool) (s : String) : String := String.ofList (trim set s.toList)

theorem trimmingCharacters_eq_empty {set : Char → Bool} {s : String} :
    trimmingCharacters set s = "" ↔ ∀ c ∈ s.toList, set c = true := by
  rw [trimmingCharacters, ← trim_eq_nil]
  constructor
  · intro h
    simpa using congrArg String.toList h
  · intro h
    rw [h]

def isBlank (s : String) : Bool := trimmingCharacters whitespaces s == ""

theorem isBlank_iff {s : String} :
    isBlank s = true ↔ ∀ c ∈ s.toList, whitespaces c = true := by
  rw [isBlank, beq_iff_eq, trimmingCharacters_eq_empty]

/-- True when there is nothing but letters. -/
def isNumeric (letters : Letters) (s : String) : Bool :=
  trimmingCharacters letters.contains s == ""

theorem isNumeric_iff {letters : Letters} {s : String} :
    isNumeric letters s = true ↔ ∀ c ∈ s.toList, letters.contains c = true := by
  rw [isNumeric, beq_iff_eq, trimmingCharacters_eq_empty]

end VoisinMalin
