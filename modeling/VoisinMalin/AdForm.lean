import VoisinMalin.Library.Run
import VoisinMalin.Firestore
import VoisinMalin.Model

/-! The visits of the ad-creation form, AdCreateViewController, on any number of devices: the fields
of each form, the location and the address that reach it, the uploads of its images, the two user
defaults that `publishButton` reads, and the documents that it writes. A form is known by its UUID;
the callbacks of a form run also when its visit is over. -/

namespace VoisinMalin

open EventMachine

structure Coordinate (Double : Type) where
  latitude : Double
  longitude : Double

structure Placemark where
  name : Option String
  postalCode : Option String
  locality : Option String

def Placemark.address (p : Placemark) : String :=
  String.intercalate ",  " ([p.name, p.postalCode, p.locality].filterMap id)

/-- What the form takes from Foundation and Firebase Storage: the letters, the text of a number, and
the download URL of the object at a path, with an access token. -/
structure FormServices (Double : Type) where
  letters : Letters
  text : Double → String
  absoluteString : String → String → String

/-- The form. A text field reads as a text, a label may have none. -/
structure Form where
  device : DeviceID
  title : String
  description : String
  price : String
  phone : String
  location : String
  hiddenGPSLat : Option String
  hiddenGPSLong : Option String
  sortDistance : Option String
  adsAddress : Option String
  isOn : Bool -- the switch that hides the address

/-- The three hidden labels of the storyboard read "Label". -/
def Form.loaded (dev : DeviceID) : Form :=
  ⟨dev, "", "", "", "", "", some "Label", some "Label", some "Label", none, false⟩

/-- An asynchronous call of a form under way, apart from the writes. -/
inductive Call where
  | reverseGeocode (unique : String)
  | putData (unique : String)
  | downloadURL (unique : String)
deriving DecidableEq

/-- A write under way, or its acknowledgement. -/
inductive Saving where
  | addDocument (unique : String) (data : AdData)
  | ack (unique : String) (ok : Bool)
deriving DecidableEq

/-- A download URL that a form has got for one of its uploads. -/
structure Obtained where
  unique : String
  device : DeviceID
  url : String
deriving DecidableEq

structure Visits where
  session : DeviceID → Option User
  userMail : DeviceID → Option String -- user default
  url : DeviceID → Option String -- user default
  screen : DeviceID → Option String -- the form on the screen
  forms : String → Option Form
  uuids : Finset String -- in use, never drawn again
  calls : List Call
  saving : List Saving
  ads : Collection
  obtained : List Obtained -- the newest first
  written : List AdData -- all that was passed to `addDocument`
  saved : List String -- the form of each document added

inductive FormEvent (Double : Type) where
  | session (dev : DeviceID) (user : Option User)
  | setUserMail (dev : DeviceID) -- by Home or a detail screen
  | viewDidLoad (dev : DeviceID) (unique : String)
  | leave (dev : DeviceID)
  | edit (unique title description price phone : String)
  | adressHidden (unique : String) (isOn : Bool)
  | didUpdateLocations (unique : String) (locations : List (Coordinate Double))
  | geocoded (unique : String) (placemarks : Option (List Placemark))
  | didFinishPicking (unique : String)
  | put (unique : String) (ok : Bool)
  | downloadURL (unique : String) (token : Option String)
  | publishButton (unique : String)
  | apply (unique : String) (data : AdData) (id : DocID)
  | fail (unique : String) (data : AdData)
  | deliver (unique : String) (ok : Bool)

variable {Double : Type}

namespace Visits

def launch (ads : Collection) (uuids : Finset String) (session : DeviceID → Option User)
    (userMail url : DeviceID → Option String) : Visits where
  session := session
  userMail := userMail
  url := url
  screen := fun _ => none
  forms := fun _ => none
  uuids := uuids
  calls := []
  saving := []
  ads := ads
  obtained := []
  written := []
  saved := []

/-- The form `unique`, if it is on the screen of its device. -/
def shown (s : Visits) (unique : String) : Option Form :=
  (s.forms unique).filter fun form => s.screen form.device == some unique

def setForm (s : Visits) (unique : String) (form : Form) : Visits :=
  { s with forms := Function.update s.forms unique (some form) }

def call (s : Visits) (c : Call) : Visits := { s with calls := s.calls ++ [c] }

def takeCall (s : Visits) (c : Call) : Option (Visits) :=
  if c ∈ s.calls then some { s with calls := s.calls.erase c } else none

def takeSaving (s : Visits) (w : Saving) : Option (Visits) :=
  if w ∈ s.saving then some { s with saving := s.saving.erase w } else none

end Visits

namespace Form

def located (sv : FormServices Double) (form : Form) (location : Coordinate Double) : Form :=
  { form with
    hiddenGPSLat := some (sv.text location.latitude)
    hiddenGPSLong := some (sv.text location.longitude) }

def geocoded (form : Form) (placemarks : List Placemark) : Form :=
  placemarks.foldl
    (fun form p => { form with location := p.address, adsAddress := some p.address }) form

/-- A text field that is given no text reads as the empty one. -/
def adressHidden (form : Form) (isOn : Bool) : Form :=
  { form with isOn := isOn, location := if isOn then "" else form.adsAddress.getD "" }

/-- The texts pass the checks of `publishButton`. -/
def verified (sv : FormServices Double) (form : Form) : Bool :=
  !(isBlank form.title || isBlank form.description || isBlank form.price || isBlank form.phone ||
    isNumeric sv.letters form.price || isNumeric sv.letters form.phone)

/-- The document that `publishButton` writes, if the checks pass and all that it binds is there. -/
def publish (sv : FormServices Double) (form : Form) (unique : String)
    (userMail url : Option String) : Option AdData :=
  if form.verified sv then do
    let currentUserMail ← userMail
    let gpslat ← form.hiddenGPSLat
    let gpslong ← form.hiddenGPSLong
    let image ← url
    let sortD ← form.sortDistance
    return { description := form.description, isFavorites := false, documentID := unique,
             location := form.location, gpsLocationLat := gpslat, gpsLocationLong := gpslong,
             sortDistance := sortD, phone := form.phone, image := image, price := form.price,
             title := form.title, mail := currentUserMail }
  else none

/-- `data` is what an accepted press on the form writes. -/
structure Yields (form : Form) (unique : String) (userMail url : Option String) (data : AdData) :
    Prop where
  description : data.description = form.description
  isFavorites : data.isFavorites = false
  documentID : data.documentID = unique
  location : data.location = form.location
  gpsLocationLat : form.hiddenGPSLat = some data.gpsLocationLat
  gpsLocationLong : form.hiddenGPSLong = some data.gpsLocationLong
  sortDistance : form.sortDistance = some data.sortDistance
  phone : data.phone = form.phone
  image : url = some data.image
  price : data.price = form.price
  title : data.title = form.title
  mail : userMail = some data.mail

theorem publish_yields {sv : FormServices Double} {form : Form} {unique : String}
    {userMail url : Option String} {data : AdData}
    (h : form.publish sv unique userMail url = some data) :
    form.Yields unique userMail url data := by
  unfold publish at h
  split at h
  · simp only [Option.bind_eq_bind, Option.bind_eq_some_iff, Option.pure_def,
      Option.some.injEq] at h
    obtain ⟨mail, hmail, lat, hlat, long, hlong, image, himage, sortD, hsort, rfl⟩ := h
    exact ⟨rfl, rfl, rfl, rfl, hlat, hlong, hsort, rfl, himage, rfl, rfl, hmail⟩
  · contradiction

end Form

namespace Visits

/-- The document that a press of `publishButton` on the form `unique` writes. -/
def published (sv : FormServices Double) (s : Visits) (unique : String) : Option AdData :=
  (s.shown unique).bind fun form =>
    form.publish sv unique (s.userMail form.device) (s.url form.device)

/-- `viewDidLoad` of a new form. -/
def load (s : Visits) (dev : DeviceID) (unique : String) : Visits :=
  { s with
    screen := Function.update s.screen dev (some unique)
    uuids := insert unique s.uuids
    userMail := Function.update s.userMail dev ((s.session dev).map User.mail)
    forms := Function.update s.forms unique (some (.loaded dev)) }

/-- The download URL of an upload comes in. -/
def receive (s : Visits) (unique : String) (dev : DeviceID) (url : String) : Visits :=
  { s with
    url := Function.update s.url dev (some url)
    obtained := ⟨unique, dev, url⟩ :: s.obtained }

def step (sv : FormServices Double) (s : Visits) : FormEvent Double → Option (Visits)
  | .session dev user => some { s with session := Function.update s.session dev user }
  | .setUserMail dev => some { s with
      userMail := Function.update s.userMail dev ((s.session dev).map User.mail) }
  | .viewDidLoad dev unique =>
    if s.screen dev = none ∧ unique ∉ s.uuids then some (s.load dev unique) else none
  | .leave dev => some { s with screen := Function.update s.screen dev none }
  | .edit unique title description price phone => (s.shown unique).map fun form =>
      s.setForm unique { form with
        title := title, description := description, price := price, phone := phone }
  | .adressHidden unique isOn => (s.shown unique).map fun form =>
      s.setForm unique (form.adressHidden isOn)
  | .didUpdateLocations unique locations => (s.forms unique).map fun form =>
      match locations.getLast? with
      | some location => (s.setForm unique (form.located sv location)).call (.reverseGeocode unique)
      | none => s
  -- An error is only shown.
  | .geocoded unique placemarks => (s.takeCall (.reverseGeocode unique)).bind fun s =>
      (s.forms unique).map fun form => s.setForm unique (form.geocoded (placemarks.getD []))
  | .didFinishPicking unique => (s.shown unique).map fun _ => s.call (.putData unique)
  | .put unique ok => (s.takeCall (.putData unique)).map fun s =>
      if ok then s.call (.downloadURL unique) else s
  | .downloadURL unique token => (s.takeCall (.downloadURL unique)).bind fun s =>
      (s.forms unique).map fun form =>
        match token with
        | some token =>
          s.receive unique form.device (sv.absoluteString ("image/" ++ unique) token)
        | none => s
  -- A press that is not accepted shows an alert or does nothing.
  | .publishButton unique => (s.shown unique).map fun _ =>
      match s.published sv unique with
      | some data => { s with
          saving := s.saving ++ [.addDocument unique data], written := s.written ++ [data] }
      | none => s
  -- Firestore draws an ID that no document has.
  | .apply unique data id => (s.takeSaving (.addDocument unique data)).bind fun s =>
      if id ∈ s.ads then none
      else some { s with
        ads := s.ads.insert id data.fields
        saved := unique :: s.saved
        saving := s.saving ++ [.ack unique true] }
  | .fail unique data => (s.takeSaving (.addDocument unique data)).map fun s =>
      { s with saving := s.saving ++ [.ack unique false] }
  -- After a success the form, if it is still on the screen, goes back to the list.
  | .deliver unique ok => (s.takeSaving (.ack unique ok)).bind fun s =>
      (s.forms unique).map fun form =>
        if ok ∧ s.screen form.device = some unique then
          { s with screen := Function.update s.screen form.device none }
        else s

variable {sv : FormServices Double} {s t : Visits} {e : FormEvent Double}

theorem takeCall_eq_some {c : Call} : s.takeCall c = some t ↔
    c ∈ s.calls ∧ t = { s with calls := s.calls.erase c } := by
  unfold takeCall
  split <;> simp_all [eq_comm]

theorem takeSaving_eq_some {w : Saving} : s.takeSaving w = some t ↔
    w ∈ s.saving ∧ t = { s with saving := s.saving.erase w } := by
  unfold takeSaving
  split <;> simp_all [eq_comm]

theorem shown_eq_some {unique : String} {form : Form} : s.shown unique = some form ↔
    s.forms unique = some form ∧ s.screen form.device = some unique := by
  simp [shown, Option.filter_eq_some_iff]

theorem load_forms (s : Visits) (dev : DeviceID) (unique u : String) :
    (s.load dev unique).forms u = if u = unique then some (.loaded dev) else s.forms u := by
  simp [load, Function.update_apply]

theorem receive_url (s : Visits) (unique : String) (dev d : DeviceID) (url : String) :
    (s.receive unique dev url).url d = if d = dev then some url else s.url d := by
  simp [receive, Function.update_apply]

/-- A step that touches neither the user default `url` nor the writes and the collection: the forms
stay on their devices, no form is new and none comes to a screen. -/
structure Inner (s t : Visits) : Prop where
  forms : ∀ unique form, s.forms unique = some form →
    ∃ form', t.forms unique = some form' ∧ form'.device = form.device
  known : ∀ unique, (t.forms unique).isSome → (s.forms unique).isSome
  screen : ∀ dev unique, t.screen dev = some unique → s.screen dev = some unique
  uuids : t.uuids = s.uuids
  url : t.url = s.url
  saving : t.saving = s.saving
  ads : t.ads = s.ads
  obtained : t.obtained = s.obtained
  written : t.written = s.written
  saved : t.saved = s.saved

theorem Inner.refl (s : Visits) : Inner s s :=
  ⟨fun _ form h => ⟨form, h, rfl⟩, fun _ => id, fun _ _ => id, rfl, rfl, rfl, rfl, rfl, rfl, rfl⟩

theorem inner_setForm {unique : String} {form form' : Form} (h : s.forms unique = some form)
    (hdevice : form'.device = form.device) : Inner s (s.setForm unique form') := by
  refine ⟨fun u f hf => ?_, fun u hu => ?_, fun _ _ => id, rfl, rfl, rfl, rfl, rfl, rfl, rfl⟩
  · by_cases hsame : u = unique
    · subst hsame
      rw [h] at hf
      cases hf
      exact ⟨form', by simp [setForm], hdevice⟩
    · exact ⟨f, by simpa [setForm, hsame] using hf, rfl⟩
  · by_cases hsame : u = unique
    · simp [hsame, h]
    · simpa [setForm, hsame] using hu

theorem inner_calls (s : Visits) (calls : List Call) : Inner s { s with calls := calls } :=
  ⟨fun _ form h => ⟨form, h, rfl⟩, fun _ => id, fun _ _ => id, rfl, rfl, rfl, rfl, rfl, rfl, rfl⟩

theorem Inner.trans {u : Visits} (h : Inner s t) (h' : Inner t u) : Inner s u where
  forms unique form hform := by
    obtain ⟨form', hform', hdevice⟩ := h.forms unique form hform
    obtain ⟨form'', hform'', hdevice'⟩ := h'.forms unique form' hform'
    exact ⟨form'', hform'', hdevice'.trans hdevice⟩
  known unique hu := h.known unique (h'.known unique hu)
  screen dev unique hu := h.screen dev unique (h'.screen dev unique hu)
  uuids := h'.uuids.trans h.uuids
  url := h'.url.trans h.url
  saving := h'.saving.trans h.saving
  ads := h'.ads.trans h.ads
  obtained := h'.obtained.trans h.obtained
  written := h'.written.trans h.written
  saved := h'.saved.trans h.saved

/-- What a step does to the forms, the user default `url`, the writes and the collection. -/
inductive Stepped (sv : FormServices Double) (s t : Visits) : FormEvent Double → Prop
  | loaded {dev : DeviceID} {unique : String} (new : unique ∉ s.uuids)
      (state : t = s.load dev unique) : Stepped sv s t (.viewDidLoad dev unique)
  | obtained {unique token : String} {form : Form} (known : s.forms unique = some form)
      (state : t = receive { s with calls := s.calls.erase (.downloadURL unique) } unique
        form.device (sv.absoluteString ("image/" ++ unique) token)) :
      Stepped sv s t (.downloadURL unique (some token))
  | published {unique : String} {data : AdData} (accepted : s.published sv unique = some data)
      (state : t = { s with
        saving := s.saving ++ [.addDocument unique data], written := s.written ++ [data] }) :
      Stepped sv s t (.publishButton unique)
  | applied {unique : String} {data : AdData} {id : DocID} (mem : .addDocument unique data ∈ s.saving)
      (free : id ∉ s.ads)
      (state : t = { s with
        ads := s.ads.insert id data.fields
        saved := unique :: s.saved
        saving := s.saving.erase (.addDocument unique data) ++ [.ack unique true] }) :
      Stepped sv s t (.apply unique data id)
  | failed {unique : String} {data : AdData} (mem : .addDocument unique data ∈ s.saving)
      (state : t = { s with
        saving := s.saving.erase (.addDocument unique data) ++ [.ack unique false] }) :
      Stepped sv s t (.fail unique data)
  | acked {unique : String} {ok : Bool} {form : Form} (mem : .ack unique ok ∈ s.saving)
      (known : s.forms unique = some form)
      (state : t = { s with
        saving := s.saving.erase (.ack unique ok)
        screen := if ok ∧ s.screen form.device = some unique then
          Function.update s.screen form.device none else s.screen }) :
      Stepped sv s t (.deliver unique ok)
  | other {e : FormEvent Double}
      (rejected : ∀ unique, e = .publishButton unique → s.published sv unique = none)
      (applies : ∀ unique data id, e ≠ .apply unique data id) (state : Inner s t) :
      Stepped sv s t e

theorem geocoded_device (form : Form) (placemarks : List Placemark) :
    (form.geocoded placemarks).device = form.device := by
  unfold Form.geocoded
  induction placemarks generalizing form with
  | nil => rfl
  | cons p placemarks ih => rw [List.foldl_cons, ih]

theorem step_stepped (h : step sv s e = some t) : Stepped sv s t e := by
  cases e with
  | session dev user | setUserMail dev =>
    cases h
    exact .other (by simp) (by simp)
      ⟨fun _ form h => ⟨form, h, rfl⟩, fun _ => id, fun _ _ => id, rfl, rfl, rfl, rfl, rfl, rfl, rfl⟩
  | viewDidLoad dev unique =>
    simp only [step] at h
    split at h
    · rename_i hnew
      exact .loaded hnew.2 (Option.some.inj h).symm
    · contradiction
  | leave dev =>
    cases h
    refine .other (by simp) (by simp) ⟨fun _ form h => ⟨form, h, rfl⟩, fun _ => id,
      fun dev' unique hscreen => ?_, rfl, rfl, rfl, rfl, rfl, rfl, rfl⟩
    by_cases hsame : dev' = dev
    · simp [hsame] at hscreen
    · simpa [hsame] using hscreen
  | edit unique title description price phone =>
    obtain ⟨form, hform, rfl⟩ := Option.map_eq_some_iff.mp h
    exact .other (by simp) (by simp) (inner_setForm (shown_eq_some.mp hform).1 rfl)
  | adressHidden unique isOn =>
    obtain ⟨form, hform, rfl⟩ := Option.map_eq_some_iff.mp h
    exact .other (by simp) (by simp) (inner_setForm (shown_eq_some.mp hform).1 rfl)
  | didUpdateLocations unique locations =>
    obtain ⟨form, hform, rfl⟩ := Option.map_eq_some_iff.mp h
    cases locations.getLast? with
    | none => exact .other (by simp) (by simp) (.refl s)
    | some location =>
      have hlocated : Inner s (s.setForm unique (form.located sv location)) :=
        inner_setForm hform rfl
      exact .other (by simp) (by simp) (hlocated.trans (inner_calls _ _))
  | geocoded unique placemarks =>
    obtain ⟨u, hu, hmap⟩ := Option.bind_eq_some_iff.mp h
    obtain ⟨form, hform, rfl⟩ := Option.map_eq_some_iff.mp hmap
    obtain ⟨-, rfl⟩ := takeCall_eq_some.mp hu
    exact .other (by simp) (by simp)
      ((inner_calls s _).trans (inner_setForm hform (geocoded_device form _)))
  | didFinishPicking unique =>
    obtain ⟨form, hform, rfl⟩ := Option.map_eq_some_iff.mp h
    exact .other (by simp) (by simp) (inner_calls s _)
  | put unique ok =>
    obtain ⟨u, hu, rfl⟩ := Option.map_eq_some_iff.mp h
    obtain ⟨-, rfl⟩ := takeCall_eq_some.mp hu
    cases ok with
    | true => exact .other (by simp) (by simp) (inner_calls s _)
    | false => exact .other (by simp) (by simp) (inner_calls s _)
  | downloadURL unique token =>
    obtain ⟨u, hu, hmap⟩ := Option.bind_eq_some_iff.mp h
    obtain ⟨form, hform, rfl⟩ := Option.map_eq_some_iff.mp hmap
    obtain ⟨-, rfl⟩ := takeCall_eq_some.mp hu
    cases token with
    | none => exact .other (by simp) (by simp) (inner_calls s _)
    | some token => exact .obtained hform rfl
  | publishButton unique =>
    obtain ⟨form, hform, rfl⟩ := Option.map_eq_some_iff.mp h
    cases hdata : s.published sv unique with
    | none =>
      refine .other (fun u hu => ?_) (by simp) (.refl s)
      cases hu
      exact hdata
    | some data => exact .published hdata rfl
  | apply unique data id =>
    obtain ⟨u, hu, hadd⟩ := Option.bind_eq_some_iff.mp h
    obtain ⟨hmem, rfl⟩ := takeSaving_eq_some.mp hu
    split at hadd
    · contradiction
    · rename_i hfree
      exact .applied hmem hfree (Option.some.inj hadd).symm
  | fail unique data =>
    obtain ⟨u, hu, rfl⟩ := Option.map_eq_some_iff.mp h
    obtain ⟨hmem, rfl⟩ := takeSaving_eq_some.mp hu
    exact .failed hmem rfl
  | deliver unique ok =>
    obtain ⟨u, hu, hmap⟩ := Option.bind_eq_some_iff.mp h
    obtain ⟨form, hform, rfl⟩ := Option.map_eq_some_iff.mp hmap
    obtain ⟨hmem, rfl⟩ := takeSaving_eq_some.mp hu
    refine .acked hmem hform ?_
    simp only
    split <;> rfl

theorem published_eq_some {unique : String} {data : AdData} (h : s.published sv unique = some data) :
    ∃ form, s.forms unique = some form ∧ s.screen form.device = some unique ∧
      data.documentID = unique ∧ s.url form.device = some data.image := by
  obtain ⟨form, hform, hdata⟩ := Option.bind_eq_some_iff.mp h
  obtain ⟨hknown, hscreen⟩ := shown_eq_some.mp hform
  have hyields := Form.publish_yields hdata
  exact ⟨form, hknown, hscreen, hyields.documentID, hyields.image⟩

end Visits

/-- ASCII letters and URLs without tokens, for the runs on fixed inputs. -/
def plainServices : FormServices Nat where
  letters := ⟨Char.isAlpha, fun _ _ => rfl⟩
  text n := toString n
  absoluteString path _ := "https://firebasestorage/" ++ path

/-- Alice's device before the first visit. -/
def alicesPhone : Visits :=
  .launch ∅ ∅ (fun _ => some alice) (fun _ => none) (fun _ => none)

def fills (unique title : String) : FormEvent Nat :=
  .edit unique title "Bon etat" "40" "0600000000"

end VoisinMalin
