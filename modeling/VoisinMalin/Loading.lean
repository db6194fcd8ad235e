import VoisinMalin.Library.Collect
import VoisinMalin.Model
import Mathlib.Data.List.Sort

/-! The three loaders: SearchListController's and FavoriteListController's `loadData` and
HomeViewController's `uploadData`, from the answer of their query on. Each binds seven text fields
with `as? String`, tests other fields for presence only, and then force-casts those; a forced cast
that fails stops the app. A number where the text of one of them should be, or in Home a favourite
flag that is no boolean, is enough. -/

namespace VoisinMalin

open Collect

/-- The operations of Foundation, Core Location and Swift on numbers, locations and titles. -/
structure Platform (Double Location : Type) where
  doubleValue : String → Double -- of NSString
  distance : Location → Double → Double → Double -- to a latitude and a longitude
  zero : Double
  thousandth : Double → Double
  rounded : Double → Double
  titleBefore : String → String → Bool
  nearer : Double → Double → Bool
  isNaN : Double → Bool

/-- A forced cast that failed, by its field and the type that it asks for. -/
structure FailedCast where
  field : String
  target : String
deriving DecidableEq

def forced {α : Type} (target : String) (cast : Value → Option α) (data : Fields)
    (field : String) : Except FailedCast α :=
  match (data field).bind cast with
  | some a => .ok a
  | none => .error ⟨field, target⟩

def forcedString : Fields → String → Except FailedCast String := forced "String" Value.asString

def forcedNSString : Fields → String → Except FailedCast String := forced "NSString" Value.asString

def forcedBool : Fields → String → Except FailedCast Bool := forced "Bool" Value.asBool

/-- The fields that all three loaders bind as texts. -/
structure Texts where
  title : String
  description : String
  price : String
  phone : String
  mail : String
  location : String
  image : String

def texts? (data : Fields) : Option Texts := do
  let title ← data.string? K.titleField
  let description ← data.string? K.descriptionField
  let price ← data.string? K.priceField
  let phone ← data.string? K.phoneField
  let mail ← data.string? K.mailField
  let location ← data.string? K.locationField
  let image ← data.string? K.imageAds
  return ⟨title, description, price, phone, mail, location, image⟩

/-- The fields that all three loaders test for presence only. -/
def presents (data : Fields) : Bool :=
  [K.gpsLocationLong, K.gpsLocationLat, K.sortDistance, K.documentID].all fun field =>
    (data field).isSome

variable {Double Location : Type}

def SearchListController.newad (pl : Platform Double Location) (location : Option Location)
    (data : Fields) : Except FailedCast (Option (DefaultAds Double)) :=
  match texts? data, presents data, (data K.isFavorites).bind Value.asBool with
  | some t, true, some isFav => do
    let lat ← forcedNSString data K.gpsLocationLat
    let long ← forcedNSString data K.gpsLocationLong
    let metres := (location.map fun here =>
      pl.distance here (pl.doubleValue lat) (pl.doubleValue long)).getD pl.zero
    let roundedDistance := pl.rounded (pl.thousandth metres)
    let id ← forcedString data K.documentID
    let gpslat ← forcedString data K.gpsLocationLat
    let gpslong ← forcedString data K.gpsLocationLong
    let sortD ← forcedNSString data K.sortDistance
    let newad : DefaultAds Double :=
      { title := t.title, price := t.price, location := t.location, image := t.image,
        description := t.description, phone := t.phone, mail := t.mail, documentID := id,
        gpsLocationLat := gpslat, gpsLocationLong := gpslong,
        sortDistance := pl.doubleValue sortD, isFavotites := isFav }
    return some { newad with sortDistance := roundedDistance }
  | _, _, _ => .ok none

def FavoriteListController.newad (pl : Platform Double Location) (data : Fields) :
    Except FailedCast (Option (DefaultAds Double)) :=
  match texts? data, presents data, (data K.isFavorites).bind Value.asBool with
  | some t, true, some isFav => do
    let id ← forcedString data K.documentID
    let gpslat ← forcedString data K.gpsLocationLat
    let gpslong ← forcedString data K.gpsLocationLong
    let sortD ← forcedNSString data K.sortDistance
    return some
      { title := t.title, price := t.price, location := t.location, image := t.image,
        description := t.description, phone := t.phone, mail := t.mail, documentID := id,
        gpsLocationLat := gpslat, gpsLocationLong := gpslong,
        sortDistance := pl.doubleValue sortD, isFavotites := isFav }
  | _, _, _ => .ok none

/-- Home tests the favourite flag for presence only, too. -/
def HomeViewController.newad (pl : Platform Double Location) (data : Fields) :
    Except FailedCast (Option (DefaultAds Double)) :=
  match texts? data, presents data, (data K.isFavorites).isSome with
  | some t, true, true => do
    let id ← forcedString data K.documentID
    let gpslat ← forcedString data K.gpsLocationLat
    let gpslong ← forcedString data K.gpsLocationLong
    let sortdistance ← forcedNSString data K.sortDistance
    let isFav ← forcedBool data K.isFavorites
    return some
      { title := t.title, price := t.price, location := t.location, image := t.image,
        description := t.description, phone := t.phone, mail := t.mail, documentID := id,
        gpsLocationLat := gpslat, gpsLocationLong := gpslong,
        sortDistance := pl.doubleValue sortdistance, isFavotites := isFav }
  | _, _, _ => .ok none

/-- Swift's `sort(by:)`, which is stable. Where the predicate is no strict weak order, Swift leaves open
which order it is that the elements end up in. -/
def sort {α : Type} (before : α → α → Bool) (l : List α) : List α :=
  l.insertionSort fun a b => before b a = false

def sortByTitle (pl : Platform Double Location) : List (DefaultAds Double) → List (DefaultAds Double) :=
  sort fun a b => pl.titleBefore a.title b.title

def SearchListController.loadData (pl : Platform Double Location) (location : Option Location)
    (docs : List Fields) (privateAds : List (DefaultAds Double)) :
    Except FailedCast (List (DefaultAds Double)) :=
  collect (SearchListController.newad pl location) (sortByTitle pl) docs privateAds

def FavoriteListController.loadData (pl : Platform Double Location) (docs : List Fields)
    (privateAds : List (DefaultAds Double)) : Except FailedCast (List (DefaultAds Double)) :=
  collect (FavoriteListController.newad pl) (sortByTitle pl) docs privateAds

def HomeViewController.uploadData (pl : Platform Double Location) (docs : List Fields)
    (privateAds : List (DefaultAds Double)) : Except FailedCast (List (DefaultAds Double)) :=
  collect (HomeViewController.newad pl) id docs privateAds

/-- An ad without the number that each loader computes in its own way. -/
def DefaultAds.unplaced (ad : DefaultAds Double) : DefaultAds Unit := { ad with sortDistance := () }

/-- The ad of a document whose eleven text fields are strings and whose favourite flag is read by
`flag`. -/
def readAd (flag : Value → Option Bool) (data : Fields) : Option (DefaultAds Unit) := do
  let t ← texts? data
  let id ← data.string? K.documentID
  let gpslat ← data.string? K.gpsLocationLat
  let gpslong ← data.string? K.gpsLocationLong
  let _ ← data.string? K.sortDistance
  let isFav ← (data K.isFavorites).bind flag
  return { title := t.title, price := t.price, location := t.location, image := t.image,
           description := t.description, phone := t.phone, mail := t.mail, documentID := id,
           gpsLocationLat := gpslat, gpsLocationLong := gpslong, sortDistance := (),
           isFavotites := isFav }

def Value.boolean? : Value → Option Bool
  | .boolean b => some b
  | _ => none

/-- The ad of a document that has all its fields with the types that `publishButton` writes. -/
def wellFormedAd (data : Fields) : Option (DefaultAds Unit) := readAd Value.boolean? data

/-- The document gets past the `if let` of `uploadData`: the seven texts are strings, the other
five fields are present. -/
def HomeBinds (data : Fields) : Prop :=
  (texts? data).isSome ∧ presents data = true ∧ (data K.isFavorites).isSome

section Newad

variable {data : Fields} {field s : String} {flag : Value → Option Bool} {a : DefaultAds Unit}

theorem forced_ok {α : Type} {target : String} {cast : Value → Option α} {v : α} :
    forced target cast data field = .ok v ↔ (data field).bind cast = some v := by
  unfold forced
  cases (data field).bind cast <;> simp

theorem forcedString_ok : forcedString data field = .ok s ↔ data.string? field = some s := forced_ok

theorem forcedNSString_ok : forcedNSString data field = .ok s ↔ data.string? field = some s :=
  forced_ok

theorem except_bind_ok {ε α β : Type} {x : Except ε α} {f : α → Except ε β} {b : β} :
    x >>= f = .ok b ↔ ∃ v, x = .ok v ∧ f v = .ok b := by
  cases x <;> simp [bind, Except.bind]

theorem toOption_eq_some {ε α : Type} {x : Except ε α} {a : α} (h : x.toOption = some a) :
    x = .ok a := by
  cases x with
  | ok b =>
    cases h
    rfl
  | error e => contradiction

theorem readAd_some : readAd flag data = some a ↔ ∃ t id gpslat gpslong sortD isFav,
    texts? data = some t ∧ data.string? K.documentID = some id ∧
    data.string? K.gpsLocationLat = some gpslat ∧ data.string? K.gpsLocationLong = some gpslong ∧
    data.string? K.sortDistance = some sortD ∧ (data K.isFavorites).bind flag = some isFav ∧
    a = ⟨t.title, t.price, t.location, t.image, t.description, t.phone, t.mail, id, gpslat,
      gpslong, (), isFav⟩ := by
  simp only [readAd, Option.bind_eq_bind, Option.bind_eq_some_iff, Option.pure_def,
    Option.some.injEq]
  constructor
  · rintro ⟨t, ht, id, hid, lat, hlat, long, hlong, sortD, hsort, isFav, hfav, rfl⟩
    exact ⟨t, id, lat, long, sortD, isFav, ht, hid, hlat, hlong, hsort, hfav, rfl⟩
  · rintro ⟨t, id, lat, long, sortD, isFav, ht, hid, hlat, hlong, hsort, hfav, rfl⟩
    exact ⟨t, ht, id, hid, lat, hlat, long, hlong, sortD, hsort, isFav, hfav, rfl⟩

theorem isSome_of_string? (h : data.string? field = some s) : (data field).isSome = true := by
  rw [Fields.string?_eq_some] at h
  simp [h]

theorem presents_of_strings {id gpslat gpslong sortD : String}
    (hid : data.string? K.documentID = some id) (hlat : data.string? K.gpsLocationLat = some gpslat)
    (hlong : data.string? K.gpsLocationLong = some gpslong)
    (hsort : data.string? K.sortDistance = some sortD) : presents data = true := by
  simp [presents, isSome_of_string? hid, isSome_of_string? hlat, isSome_of_string? hlong,
    isSome_of_string? hsort]

theorem isSome_of_bind {v : Bool} (h : (data field).bind flag = some v) :
    (data field).isSome = true := by
  obtain ⟨w, hw, -⟩ := Option.bind_eq_some_iff.mp h
  simp [hw]

/-- A document with an ad gets past the bindings of `uploadData`. -/
theorem homeBinds_of_readAd (h : (readAd flag data).isSome) : HomeBinds data := by
  obtain ⟨a, ha⟩ := Option.isSome_iff_exists.mp h
  obtain ⟨t, id, lat, long, sortD, isFav, ht, hid, hlat, hlong, hsort, hfav, -⟩ := readAd_some.mp ha
  exact ⟨by simp [ht], presents_of_strings hid hlat hlong hsort, isSome_of_bind hfav⟩

/-- What a loader makes of a document: the ad that `readAd` has for it, and a failed cast only if
the document gets past the bindings of `uploadData`. -/
structure Reads (newad : Fields → Except FailedCast (Option (DefaultAds Double))) : Prop where
  reads : ∀ {data a}, (∃ ad, newad data = .ok (some ad) ∧ ad.unplaced = a) ↔
    readAd Value.asBool data = some a
  binds : ∀ {data e}, newad data = .error e → HomeBinds data

theorem search_reads (pl : Platform Double Location) (location : Option Location) :
    Reads (SearchListController.newad pl location) := by
  constructor
  · intro data a
    rw [readAd_some]
    constructor
    · rintro ⟨ad, h, rfl⟩
      unfold SearchListController.newad at h
      split at h
      · rename_i t isFav ht hp hfav
        simp only [except_bind_ok, forcedString_ok, forcedNSString_ok] at h
        obtain ⟨lat, hlat, long, hlong, id, hid, gpslat, hgpslat, gpslong, hgpslong, sortD, hsort,
          hpure⟩ := h
        cases hpure
        exact ⟨t, id, gpslat, gpslong, sortD, isFav, ht, hid, hgpslat, hgpslong, hsort, hfav, rfl⟩
      · simp at h
    · rintro ⟨t, id, lat, long, sortD, isFav, ht, hid, hlat, hlong, hsort, hfav, rfl⟩
      simp only [SearchListController.newad, ht, presents_of_strings hid hlat hlong hsort, hfav,
        forcedString_ok.mpr hid, forcedString_ok.mpr hlat, forcedString_ok.mpr hlong,
        forcedNSString_ok.mpr hlat, forcedNSString_ok.mpr hlong, forcedNSString_ok.mpr hsort]
      exact ⟨_, rfl, rfl⟩
  · intro data e h
    unfold SearchListController.newad at h
    split at h
    · rename_i t isFav ht hp hfav
      exact ⟨by simp [ht], hp, isSome_of_bind hfav⟩
    · contradiction

theorem favorite_reads (pl : Platform Double Location) :
    Reads (FavoriteListController.newad pl) := by
  constructor
  · intro data a
    rw [readAd_some]
    constructor
    · rintro ⟨ad, h, rfl⟩
      unfold FavoriteListController.newad at h
      split at h
      · rename_i t isFav ht hp hfav
        simp only [except_bind_ok, forcedString_ok, forcedNSString_ok] at h
        obtain ⟨id, hid, gpslat, hgpslat, gpslong, hgpslong, sortD, hsort, hpure⟩ := h
        cases hpure
        exact ⟨t, id, gpslat, gpslong, sortD, isFav, ht, hid, hgpslat, hgpslong, hsort, hfav, rfl⟩
      · simp at h
    · rintro ⟨t, id, lat, long, sortD, isFav, ht, hid, hlat, hlong, hsort, hfav, rfl⟩
      simp only [FavoriteListController.newad, ht, presents_of_strings hid hlat hlong hsort, hfav,
        forcedString_ok.mpr hid, forcedString_ok.mpr hlat, forcedString_ok.mpr hlong,
        forcedNSString_ok.mpr hsort]
      exact ⟨_, rfl, rfl⟩
  · intro data e h
    unfold FavoriteListController.newad at h
    split at h
    · rename_i t isFav ht hp hfav
      exact ⟨by simp [ht], hp, isSome_of_bind hfav⟩
    · contradiction

theorem home_reads (pl : Platform Double Location) : Reads (HomeViewController.newad pl) := by
  constructor
  · intro data a
    rw [readAd_some]
    constructor
    · rintro ⟨ad, h, rfl⟩
      unfold HomeViewController.newad at h
      split at h
      · rename_i t ht hp hf
        simp only [except_bind_ok, forcedString_ok, forcedNSString_ok] at h
        obtain ⟨id, hid, gpslat, hgpslat, gpslong, hgpslong, sortD, hsort, isFav, hfav, hpure⟩ := h
        cases hpure
        exact ⟨t, id, gpslat, gpslong, sortD, isFav, ht, hid, hgpslat, hgpslong, hsort,
          forced_ok.mp hfav, rfl⟩
      · simp at h
    · rintro ⟨t, id, lat, long, sortD, isFav, ht, hid, hlat, hlong, hsort, hfav, rfl⟩
      have hforced : forcedBool data K.isFavorites = .ok isFav := forced_ok.mpr hfav
      simp only [HomeViewController.newad, ht, presents_of_strings hid hlat hlong hsort,
        isSome_of_bind hfav, forcedString_ok.mpr hid, forcedString_ok.mpr hlat,
        forcedString_ok.mpr hlong, forcedNSString_ok.mpr hsort, hforced]
      exact ⟨_, rfl, rfl⟩
  · intro data e h
    unfold HomeViewController.newad at h
    split at h
    · rename_i t ht hp hf
      exact ⟨by simp [ht], hp, hf⟩
    · contradiction

/-- Home skips no document that gets past its bindings. -/
theorem home_skips {pl : Platform Double Location} (h : HomeViewController.newad pl data = .ok none) :
    ¬HomeBinds data := by
  rintro ⟨ht, hp, hf⟩
  obtain ⟨t, ht⟩ := Option.isSome_iff_exists.mp ht
  simp only [HomeViewController.newad, ht, hp, hf, except_bind_ok] at h
  obtain ⟨id, -, gpslat, -, gpslong, -, sortD, -, isFav, -, hpure⟩ := h
  cases hpure

end Newad

theorem readAd_boolean {data : Fields} {a : DefaultAds Unit} (h : wellFormedAd data = some a) :
    readAd Value.asBool data = some a := by
  obtain ⟨t, id, lat, long, sortD, isFav, ht, hid, hlat, hlong, hsort, hfav, rfl⟩ := readAd_some.mp h
  refine readAd_some.mpr ⟨t, id, lat, long, sortD, isFav, ht, hid, hlat, hlong, hsort, ?_, rfl⟩
  obtain ⟨v, hv, hbool⟩ := Option.bind_eq_some_iff.mp hfav
  cases v with
  | boolean b =>
    rw [hv]
    exact hbool
  | _ => simp [Value.boolean?] at hbool

section Loader

variable {newad : Fields → Except FailedCast (Option (DefaultAds Double))}
  {arrange : List (DefaultAds Double) → List (DefaultAds Double)}
  {docs : List Fields} {privateAds ads : List (DefaultAds Double)}

theorem Reads.kept_eq (h : Reads newad) {data : Fields} :
    (kept newad data).map DefaultAds.unplaced = readAd Value.asBool data := by
  refine Option.ext fun a => ?_
  rw [← h.reads, Option.map_eq_some_iff]
  refine exists_congr fun ad => and_congr_left fun _ => ?_
  unfold kept
  cases newad data <;> simp

/-- A loop that ends has added the ads that `readAd` has for the documents. -/
theorem Reads.collect_unplaced (h : Reads newad) (harrange : ∀ l, (arrange l).Perm l)
    (hads : collect newad arrange docs privateAds = .ok ads) :
    (ads.map DefaultAds.unplaced).Perm
      (privateAds.map DefaultAds.unplaced ++ docs.filterMap (readAd Value.asBool)) := by
  have hperm := (collect_perm harrange hads).map DefaultAds.unplaced
  rw [List.map_append, List.map_filterMap] at hperm
  simpa only [h.kept_eq] using hperm

/-- Where every document that Home binds is well formed, a loader ends, and it adds the well-formed
ads. -/
theorem Reads.loads (h : Reads newad) (harrange : ∀ l, (arrange l).Perm l)
    (hdocs : ∀ data ∈ docs, HomeBinds data → (wellFormedAd data).isSome) :
    ∃ ads, collect newad arrange docs privateAds = .ok ads ∧
      (ads.map DefaultAds.unplaced).Perm
        (privateAds.map DefaultAds.unplaced ++ docs.filterMap wellFormedAd) := by
  have hsame : ∀ data ∈ docs, readAd Value.asBool data = wellFormedAd data := by
    intro data hdata
    cases hwell : wellFormedAd data with
    | some a => exact readAd_boolean hwell
    | none =>
      by_contra hread
      have hbinds := homeBinds_of_readAd (Option.isSome_iff_ne_none.mpr hread)
      have hsome := hdocs data hdata hbinds
      simp [hwell] at hsome
  have hends : ∀ data ∈ docs, ∃ o, newad data = .ok o := by
    intro data hdata
    cases hnew : newad data with
    | ok o => exact ⟨o, rfl⟩
    | error e =>
      obtain ⟨a, ha⟩ := Option.isSome_iff_exists.mp (hdocs data hdata (h.binds hnew))
      obtain ⟨ad, had, -⟩ := h.reads.mpr (readAd_boolean ha)
      rw [hnew] at had
      contradiction
  obtain ⟨ads, hads⟩ := collect_ends.mpr hends
  refine ⟨ads, hads, ?_⟩
  rw [← List.filterMap_congr hsame]
  exact h.collect_unplaced harrange hads

end Loader

theorem sort_perm {α : Type} (before : α → α → Bool) (l : List α) : (sort before l).Perm l :=
  List.perm_insertionSort _ l

theorem sortByTitle_perm (pl : Platform Double Location) (ads : List (DefaultAds Double)) :
    (sortByTitle pl ads).Perm ads := sort_perm _ ads

/-- The three loaders end, and each adds the ads of the well-formed documents and no others. -/
def LoadersAgree (pl : Platform Double Location) (location : Option Location) (docs : List Fields)
    (privateAds : List (DefaultAds Double)) : Prop :=
  ∃ search favorites home,
    SearchListController.loadData pl location docs privateAds = .ok search ∧
    FavoriteListController.loadData pl docs privateAds = .ok favorites ∧
    HomeViewController.uploadData pl docs privateAds = .ok home ∧
    ∀ ads ∈ [search, favorites, home], (ads.map DefaultAds.unplaced).Perm
      (privateAds.map DefaultAds.unplaced ++ docs.filterMap wellFormedAd)

/-- The loaders agree exactly when every document of the answer whose seven texts are strings and
whose other fields are present is well formed. -/
theorem loadersAgree_iff (pl : Platform Double Location) (location : Option Location)
    (docs : List Fields) (privateAds : List (DefaultAds Double)) :
    LoadersAgree pl location docs privateAds ↔
      ∀ data ∈ docs, HomeBinds data → (wellFormedAd data).isSome := by
  constructor
  · rintro ⟨search, favorites, home, -, -, hhome, hads⟩ data hdata hbinds
    by_contra hwell
    obtain ⟨o, ho⟩ := collect_ends.mp ⟨home, hhome⟩ data hdata
    -- Home has added the ad of this document, too, so its list is too long.
    have hread : (readAd Value.asBool data).isSome := by
      rw [← (home_reads pl).kept_eq, kept_ok ho, Option.isSome_map]
      cases o with
      | none => exact absurd hbinds (home_skips ho)
      | some ad => rfl
    have hmono : ∀ x ∈ docs, (wellFormedAd x).isSome → (readAd Value.asBool x).isSome := by
      intro x _ hx
      obtain ⟨a, ha⟩ := Option.isSome_iff_exists.mp hx
      simp [readAd_boolean ha]
    have hlonger := filterMap_length_lt hmono hdata hread (by simpa using hwell)
    have hadded := ((home_reads pl).collect_unplaced (fun l => .refl _) hhome).length_eq
    have hkept := (hads home (by simp)).length_eq
    simp only [List.length_append] at hadded hkept
    omega
  · intro hdocs
    obtain ⟨search, hsearch, hs⟩ := (search_reads pl location).loads (sortByTitle_perm pl) hdocs
    obtain ⟨favorites, hfavorites, hf⟩ := (favorite_reads pl).loads (sortByTitle_perm pl) hdocs
    obtain ⟨home, hhome, hh⟩ := (home_reads pl).loads (fun l => .refl (id l)) hdocs
    refine ⟨search, favorites, home, hsearch, hfavorites, hhome, ?_⟩
    simp only [List.forall_mem_cons, List.not_mem_nil, false_imp_iff, implies_true, and_true]
    exact ⟨hs, hf, hh⟩

/-- A published ad whose `documentID` has become a number. -/
def numberedAd : Fields :=
  Function.update (AdData.sample "Velo" "A" alice.mail).fields K.documentID (some (.integer 7))

/-- Whole degrees on a flat earth, for the runs on fixed inputs. -/
def flatEarth : Platform Int (Int × Int) where
  doubleValue s := s.toInt?.getD 0
  distance here lat long := (here.1 - lat).natAbs + (here.2 - long).natAbs
  zero := 0
  thousandth x := x / 1000
  rounded x := x
  titleBefore a b := decide (a < b)
  nearer a b := decide (a < b)
  isNaN _ := false

/-- On that document every loader stops at the forced cast of its `documentID`. -/
theorem numberedAd_stops :
    SearchListController.loadData flatEarth none [numberedAd] [] = .error ⟨"documentID", "String"⟩ ∧
    FavoriteListController.loadData flatEarth [numberedAd] [] =
      .error ⟨"documentID", "String"⟩ ∧
    HomeViewController.uploadData flatEarth [numberedAd] [] = .error ⟨"documentID", "String"⟩ ∧
    ¬LoadersAgree flatEarth none [numberedAd] [] := by
  refine ⟨rfl, rfl, rfl, ?_⟩
  rintro ⟨search, favorites, home, hsearch, -⟩
  contradiction

end VoisinMalin
