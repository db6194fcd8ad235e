import VoisinMalin.AdForm

/-! A published ad on its detail screen. The screen unwraps the URL of the image, which is the text of
a URL, and the call button one that it makes of the phone number. The form asks of a number only that
it is neither blank nor nothing but letters, so it lets numbers through that are no part of a URL. -/

namespace VoisinMalin

variable {Double Number URL : Type}

/-- The characters that stand in a URL for themselves, in any part of it. -/
def plainChar (c : Char) : Bool := c.isAlphanum || "-._~!$&'()*+,;=".toList.contains c

/-- The characters that separate the parts of a URL or begin an escape. -/
def delimiter (c : Char) : Bool := ":/?#[]@%".toList.contains c

/-- Foundation's `URL`. A text with a character that no URL has is not one, the text of a URL is read
back, and a scheme may be followed by any plain characters. -/
structure URLs (URL : Type) where
  string : String → Option URL
  absoluteString : URL → String
  refuses : ∀ s c, c ∈ s.toList → plainChar c = false → delimiter c = false → string s = none
  reads : ∀ url, (string (absoluteString url)).isSome
  accepts : ∀ s, (∀ c ∈ s.toList, plainChar c = true) → (string ("TEL://" ++ s)).isSome

/-- The forced unwrap of a URL, by the text that is not one. -/
structure NoURL where
  text : String
deriving DecidableEq

def URLs.forced (urls : URLs URL) (text : String) : Except NoURL URL :=
  match urls.string text with
  | some url => .ok url
  | none => .error ⟨text⟩

theorem forced_isOk {urls : URLs URL} {text : String} :
    (∃ url, urls.forced text = .ok url) ↔ (urls.string text).isSome := by
  unfold URLs.forced
  cases urls.string text <;> simp

namespace DetailViewController

/-- What the screen shows of its ad; the image is loaded from the URL. -/
structure Labels (URL : Type) where
  title : String
  description : String
  price : String
  image : URL

/-- `updateAds`, up to the delete button. -/
def updateAds (urls : URLs URL) : Option (DefaultAds Double) → Except NoURL (Option (Labels URL))
  | none => .ok none
  | some ads => do
    let url ← urls.forced ads.image
    return some ⟨ads.title, ads.description, ads.price ++ " €", url⟩

/-- The URL that `callButton` opens. -/
def callButton (urls : URLs URL) (demoAd : Option (DefaultAds Double)) : Except NoURL URL :=
  urls.forced ("TEL://" ++ (demoAd.map DefaultAds.phone).getD "??")

/-- The URL that `mailButton` opens, if there is one. -/
def mailButton (urls : URLs URL) (demoAd : Option (DefaultAds Double)) : Option URL :=
  urls.string ("mailto:" ++ (demoAd.map DefaultAds.mail).getD "error")

end DetailViewController

open DetailViewController

/-- The screen of the ad loads, and its call button opens a URL. -/
structure Opens (urls : URLs URL) (ad : DefaultAds Double) : Prop where
  shown : ∃ labels, updateAds urls (some ad) = .ok (some labels)
  called : ∃ url, callButton urls (some ad) = .ok url

/-- Each character of the number stands for itself in a URL. -/
def Callable (phone : String) : Prop := ∀ c ∈ phone.toList, plainChar c = true

instance (phone : String) : Decidable (Callable phone) :=
  decidable_of_iff (phone.toList.all plainChar = true) List.all_eq_true

section Opening

variable {urls : URLs URL} {ad : DefaultAds Double} {phone : String}

theorem shown_iff : (∃ labels, updateAds urls (some ad) = .ok (some labels)) ↔
    (urls.string ad.image).isSome := by
  rw [← forced_isOk]
  simp only [updateAds]
  cases urls.forced ad.image with
  | ok url => exact ⟨fun _ => ⟨url, rfl⟩, fun _ => ⟨_, rfl⟩⟩
  | error e => simp [bind, Except.bind]

theorem called_iff : (∃ url, callButton urls (some ad) = .ok url) ↔
    (urls.string ("TEL://" ++ ad.phone)).isSome :=
  forced_isOk

/-- A number that makes a URL behind the scheme has no character that no URL has. -/
theorem urlChars_of_called (h : (urls.string ("TEL://" ++ phone)).isSome) {c : Char}
    (hc : c ∈ phone.toList) : plainChar c = true ∨ delimiter c = true := by
  by_contra hother
  rw [not_or, Bool.not_eq_true, Bool.not_eq_true] at hother
  have hmem : c ∈ ("TEL://" ++ phone).toList := by
    rw [String.toList_append]
    exact List.mem_append_right _ hc
  rw [urls.refuses _ c hmem hother.1 hother.2] at h
  contradiction

end Opening

/-- An ad that the form accepts with the text of a URL as its image is opened and called without a
trap where each character of its phone number stands for itself in a URL, and of the numbers without a
delimiter these are the only ones. -/
theorem callable_opens (urls : URLs URL) {sv : FormServices Number} {form : Form} {unique : String}
    {userMail : Option String} {url : URL} {data : AdData} (sortDistance : Double)
    (h : form.publish sv unique userMail (some (urls.absoluteString url)) = some data) :
    (Callable form.phone → Opens urls (data.toAd sortDistance)) ∧
    ((∀ c ∈ form.phone.toList, delimiter c = false) → Opens urls (data.toAd sortDistance) →
      Callable form.phone) := by
  have hyields := Form.publish_yields h
  have himage : (data.toAd sortDistance).image = urls.absoluteString url :=
    (Option.some.inj hyields.image).symm
  have hphone : (data.toAd sortDistance).phone = form.phone := hyields.phone
  constructor
  · intro hplain
    refine ⟨shown_iff.mpr ?_, called_iff.mpr ?_⟩
    · rw [himage]
      exact urls.reads url
    · rw [hphone]
      exact urls.accepts _ hplain
  · intro hdelimiter hopens c hc
    have hcalled := called_iff.mp hopens.called
    rw [hphone] at hcalled
    refine (urlChars_of_called hcalled hc).resolve_right ?_
    rw [hdelimiter c hc]
    exact Bool.false_ne_true

/-- The text has no character that no URL has. -/
def urlChars (s : String) : Bool := s.toList.all fun c => plainChar c || delimiter c

theorem urlChars_iff {s : String} : urlChars s = true ↔
    ∀ c ∈ s.toList, plainChar c = true ∨ delimiter c = true := by
  simp [urlChars, List.all_eq_true]

abbrev URLText := { s : String // urlChars s = true }

/-- Every such text as its own URL, for the runs on fixed inputs. -/
def plainURLs : URLs URLText where
  string s := if h : urlChars s = true then some ⟨s, h⟩ else none
  absoluteString url := url.val
  refuses s c hc hplain hdelimiter :=
    dif_neg fun h => by simpa [hplain, hdelimiter] using urlChars_iff.mp h c hc
  reads url := by
    rw [dif_pos url.property]
    rfl
  accepts s h := by
    have hscheme : urlChars "TEL://" = true := by decide
    rw [dif_pos]
    · rfl
    · refine urlChars_iff.mpr fun c hc => ?_
      rw [String.toList_append, List.mem_append] at hc
      exact hc.elim (urlChars_iff.mp hscheme c) fun hc => Or.inl (h c hc)

def imageURL : URLText := ⟨"https://firebasestorage/image", by decide⟩

def phoneForm (phone : String) : Form :=
  { Form.loaded 0 with title := "Velo", description := "Bon etat", price := "40", phone := phone }

def phoneAd (phone : String) : AdData :=
  { AdData.sample "Velo" "A" alice.mail with
    location := "", gpsLocationLat := "Label", gpsLocationLong := "Label", phone := phone }

/-- A number of digits is called. -/
theorem opens_digits : Opens plainURLs ((phoneAd "0600000000").toAd 0) := by
  have h : (phoneForm "0600000000").publish plainServices "A" (some alice.mail)
      (some (plainURLs.absoluteString imageURL)) = some (phoneAd "0600000000") := by decide
  exact (callable_opens plainURLs 0 h).1 (by decide)

/-- The form accepts a number with blanks, and the press on the call button stops the app. -/
theorem callButton_blanks :
    (phoneForm "06 00 00 00 00").publish plainServices "A" (some alice.mail)
      (some (plainURLs.absoluteString imageURL)) = some (phoneAd "06 00 00 00 00") ∧
    callButton plainURLs (some ((phoneAd "06 00 00 00 00").toAd 0)) =
      .error ⟨"TEL://06 00 00 00 00"⟩ ∧
    ¬Opens plainURLs ((phoneAd "06 00 00 00 00").toAd 0) := by
  have hstops : callButton plainURLs (some ((phoneAd "06 00 00 00 00").toAd 0)) =
      .error ⟨"TEL://06 00 00 00 00"⟩ := by rfl
  refine ⟨by decide, hstops, fun h => ?_⟩
  obtain ⟨url, hurl⟩ := h.called
  rw [hstops] at hurl
  simp at hurl

end VoisinMalin
