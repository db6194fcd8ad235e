import VoisinMalin.AdForm
import VoisinMalin.Loading
import VoisinMalin.Marks

/-! From the creation form to the screens. The document that `publishButton` writes gains and loses
marks, which are none of its twelve fields, so each of the three loaders reads back the ad that was
written. -/

namespace VoisinMalin

open Collect EventMachine World

variable {Number Double Location : Type}

/-- `ad` has the texts that `publishButton` writes for a form, and the flag that it writes. -/
structure Written (form : Form) (unique : String) (userMail url : Option String)
    (ad : DefaultAds Double) : Prop where
  title : ad.title = form.title
  price : ad.price = form.price
  location : ad.location = form.location
  image : some ad.image = url
  description : ad.description = form.description
  phone : ad.phone = form.phone
  mail : some ad.mail = userMail
  documentID : ad.documentID = unique
  gpsLocationLat : some ad.gpsLocationLat = form.hiddenGPSLat
  gpsLocationLong : some ad.gpsLocationLong = form.hiddenGPSLong
  isFavotites : ad.isFavotites = false

/-- A loader makes of `data` an ad that is `P`, and has such an ad in its list whenever it ends on an
answer with `data`. -/
def Decodes (newad : Fields → Except FailedCast (Option (DefaultAds Double)))
    (loadData : List Fields → List (DefaultAds Double) →
      Except FailedCast (List (DefaultAds Double)))
    (data : Fields) (P : DefaultAds Double → Prop) : Prop :=
  (∃ ad, newad data = .ok (some ad) ∧ P ad) ∧
  ∀ docs privateAds ads, data ∈ docs → loadData docs privateAds = .ok ads → ∃ ad ∈ ads, P ad

theorem publish_written {sv : FormServices Number} {form : Form} {unique : String}
    {userMail url : Option String} {data : AdData} {ad : DefaultAds Double}
    (h : form.publish sv unique userMail url = some data) (had : ad.unplaced = data.toAd ()) :
    Written form unique userMail url ad := by
  have hyields := Form.publish_yields h
  simp only [DefaultAds.unplaced, AdData.toAd, DefaultAds.mk.injEq] at had
  obtain ⟨title, price, location, image, description, phone, mail, documentID, lat, long, -, flag⟩ :=
    had
  exact ⟨title.trans hyields.title, price.trans hyields.price, location.trans hyields.location,
    image ▸ hyields.image.symm, description.trans hyields.description, phone.trans hyields.phone,
    mail ▸ hyields.mail.symm, documentID.trans hyields.documentID,
    lat ▸ hyields.gpsLocationLat.symm, long ▸ hyields.gpsLocationLong.symm,
    flag.trans hyields.isFavorites⟩

/-- A document with the content of a published ad is read as that ad. -/
theorem content_reads {data : Fields} {ad : AdData}
    (h : ∀ field ∈ schemaFields, data field = ad.fields field) :
    readAd Value.asBool data = some (ad.toAd ()) := by
  have htext : ∀ field ∈ schemaFields, data.string? field = ad.fields.string? field := by
    intro field hfield
    rw [Fields.string?, h field hfield, Fields.string?]
  have htexts : texts? data = texts? ad.fields := by
    unfold texts?
    rw [htext K.titleField (by decide), htext K.descriptionField (by decide),
      htext K.priceField (by decide), htext K.phoneField (by decide),
      htext K.mailField (by decide), htext K.locationField (by decide),
      htext K.imageAds (by decide)]
  unfold readAd
  rw [htexts, htext K.documentID (by decide), htext K.gpsLocationLat (by decide),
    htext K.gpsLocationLong (by decide), htext K.sortDistance (by decide),
    h K.isFavorites (by decide)]
  rfl

theorem Reads.decodes {newad : Fields → Except FailedCast (Option (DefaultAds Double))}
    {arrange : List (DefaultAds Double) → List (DefaultAds Double)} {data : Fields} {ad : AdData}
    {P : DefaultAds Double → Prop} (h : Reads newad) (harrange : ∀ l, (arrange l).Perm l)
    (hread : readAd Value.asBool data = some (ad.toAd ()))
    (hP : ∀ a : DefaultAds Double, a.unplaced = ad.toAd () → P a) :
    Decodes newad (collect newad arrange) data P := by
  constructor
  · obtain ⟨a, ha, hunplaced⟩ := h.reads.mpr hread
    exact ⟨a, ha, hP a hunplaced⟩
  · intro docs privateAds ads hmem hads
    have hfound : ad.toAd () ∈ ads.map DefaultAds.unplaced := by
      rw [(h.collect_unplaced harrange hads).mem_iff]
      exact List.mem_append_right _ (List.mem_filterMap.mpr ⟨data, hmem, hread⟩)
    obtain ⟨a, ha, hunplaced⟩ := List.mem_map.mp hfound
    exact ⟨a, ha, hP a hunplaced⟩

section Added

variable {w u v : World Double} {e : Event Double} {es : List (Event Double)} {id : DocID}

/-- A write under way that adds the document `id`. -/
def Task.adds (id : DocID) : Task → Bool
  | .write (.addDocument i _) _ => i == id
  | _ => false

/-- The document `id` has its ID, and at most one write under way adds it. -/
structure AddedOnce (id : DocID) (w : World Double) : Prop where
  drawn : id ∈ w.drawn
  once : w.pending.countP (Task.adds id) ≤ 1

theorem no_adds {ts : List Task} :
    ts.countP (Task.adds id) = 0 ↔ ∀ new c, .write (.addDocument id new) c ∉ ts := by
  rw [List.countP_eq_zero]
  constructor
  · intro h new c hmem
    exact h _ hmem (by simp [Task.adds])
  · intro h t ht hadds
    cases t with
    | write wr c =>
      cases wr with
      | addDocument i new =>
        obtain rfl : i = id := by simpa [Task.adds] using hadds
        exact h new c ht
      | _ => simp [Task.adds] at hadds
    | _ => simp [Task.adds] at hadds

theorem addedOnce_step (hw : AddedOnce id w) (h : step w e = some u) : AddedOnce id u := by
  have hissued : (w.issued e).countP (Task.adds id) = 0 :=
    no_adds.mpr fun new c hmem => (step_keeps h).new id (issued_add hmem) hw.drawn
  refine ⟨((step_keeps h).drawn id).mpr (Or.inl hw.drawn), ?_⟩
  rw [(step_effect h).pending, List.countP_append, hissued, Nat.add_zero]
  cases e.taken with
  | none => exact hw.once
  | some t => exact le_trans List.erase_sublist.countP_le hw.once

/-- The press that draws the ID is the only one to add the document. -/
theorem addedOnce_press {dev : DeviceID} {data : AdData}
    (hids : ∀ i new c, .write (.addDocument i new) c ∈ w.pending → i ∈ w.drawn)
    (h : step w (.publishButton dev id data) = some u) : AddedOnce id u := by
  have hnew := (step_keeps h).new id rfl
  have hnone : w.pending.countP (Task.adds id) = 0 :=
    no_adds.mpr fun new c hmem => hnew (hids id new c hmem)
  refine ⟨((step_keeps h).drawn id).mpr (Or.inr rfl), ?_⟩
  rw [(step_effect h).pending, List.countP_append]
  simp [Event.taken, hnone, issued, Task.adds]

/-- Once the write of the press is applied, no other write replaces its document. -/
theorem added_lasting {data : AdData} {c : Completion} (hw : AddedOnce id w)
    (h : step w (.apply (.addDocument id data) c) = some u) : Lasting id data.fields u := by
  have hdrawn := (addedOnce_step hw h).drawn
  obtain ⟨hmem, ⟨ads, happly, rfl⟩ | ⟨happly, rfl⟩⟩ := step_apply h
  · obtain ⟨after, hafter, hads⟩ := Write.lookup_apply happly
    cases hafter
    refine ⟨(hads id).trans (if_pos rfl), hdrawn, fun new c' hother => ?_⟩
    have hzero : (w.pending.erase (.write (.addDocument id data) c)).countP (Task.adds id) = 0 := by
      rw [List.countP_erase, if_pos ⟨hmem, by simp [Task.adds]⟩]
      have honce := hw.once
      omega
    rcases List.mem_append.mp hother with hother | hother
    · exact no_adds.mp hzero new c' hother
    · simp at hother
  · simp [Write.apply, Write.document] at happly

end Added

/-- Publishing and then loading is the identity on the ad: whatever the clients do while the document
is in the collection, each loader decodes it into an ad with what the form had written. -/
theorem publish_load {sv : FormServices Number} {form : Form} {unique : String}
    {userMail url : Option String} {data : AdData} (pl : Platform Double Location)
    (location : Option Location) {w v x u : World Double} {dev : DeviceID} {id : DocID}
    {c : Completion} {before es : List (Event Double)}
    (hform : form.publish sv unique userMail url = some data)
    (hids : ∀ i new c, .write (.addDocument i new) c ∈ w.pending → i ∈ w.drawn)
    (hpress : run step w (.publishButton dev id data :: before) = some v)
    (hadded : step v (.apply (.addDocument id data) c) = some x)
    (hthere : Always step (fun y => id ∈ y.ads) x es) (hrun : run step x es = some u) :
    ∃ doc, u.ads.lookup id = some doc ∧
      Decodes (SearchListController.newad pl location) (SearchListController.loadData pl location)
        doc (Written form unique userMail url) ∧
      Decodes (FavoriteListController.newad pl) (FavoriteListController.loadData pl)
        doc (Written form unique userMail url) ∧
      Decodes (HomeViewController.newad pl) (HomeViewController.uploadData pl)
        doc (Written form unique userMail url) := by
  obtain ⟨y, hy, hbefore⟩ := run_cons.mp hpress
  have honce : AddedOnce id v :=
    run_preserves (fun s e t hs => addedOnce_step hs) (addedOnce_press hids hy) hbefore
  obtain ⟨doc, hdoc, hcontent⟩ := lasting_run (added_lasting honce hadded) hthere hrun
  have hread := content_reads hcontent
  have hwritten : ∀ ad : DefaultAds Double, ad.unplaced = data.toAd () →
      Written form unique userMail url ad := fun ad => publish_written hform
  exact ⟨doc, hdoc.lookup, (search_reads pl location).decodes (sortByTitle_perm pl) hread hwritten,
    (favorite_reads pl).decodes (sortByTitle_perm pl) hread hwritten,
    (home_reads pl).decodes (fun l => .refl l) hread hwritten⟩

/-- Alice's form for her ad. -/
def alicesForm : Form :=
  { Form.loaded 0 with
    title := "Velo", description := "Bon etat", price := "40", phone := "0600000000",
    location := "Paris", hiddenGPSLat := some "48.85", hiddenGPSLong := some "2.35" }

def alicesAd : AdData := .sample "Velo" "A" alice.mail

/-- An empty collection, Alice on device 0 and Bob on the others. -/
def nothingThere : World Int where
  ads := ∅
  session := fun dev => if dev = 0 then some alice else some bob
  screens := fun _ => none
  pending := []
  drawn := ∅

/-- Bob opens the ad and adds it to his favourites. -/
def bobFavouritesIt : List (Event Int) :=
  [.viewDidLoad 0 1 (alicesAd.toAd 0), .favoriteButton 0,
    .evaluate ⟨"Velo", none⟩ (.favoriteButton 0) [1], .deliver (.answer [1] (.favoriteButton 0)),
    .apply (.setData 1 bob.uid) (.misEnFavoris 0)]

/-- Home gets Alice's ad from the document with Bob's mark. -/
theorem publish_load_velo : ∃ v x u doc,
    run step nothingThere [.publishButton 0 1 alicesAd] = some v ∧
    step v (.apply (.addDocument 1 alicesAd) (.annonceSauvegardee 0)) = some x ∧
    run step x bobFavouritesIt = some u ∧ u.ads.lookup 1 = some doc ∧ Marked bob.uid doc ∧
    ∃ ad, HomeViewController.newad flatEarth doc = .ok (some ad) ∧ ad.title = "Velo" := by
  obtain ⟨v, x, u, doc, hpress, hadded, hrun, hthere, hdoc, hmark⟩ : ∃ v x u doc,
      run step nothingThere [.publishButton 0 1 alicesAd] = some v ∧
      step v (.apply (.addDocument 1 alicesAd) (.annonceSauvegardee 0)) = some x ∧
      run step x bobFavouritesIt = some u ∧ Always step (fun y => 1 ∈ y.ads) x bobFavouritesIt ∧
      u.ads.lookup 1 = some doc ∧ Marked bob.uid doc := by
    refine ⟨_, _, _, _, rfl, rfl, rfl, ?_, rfl, rfl⟩
    iterate 5 refine Always.cons rfl (by decide) ?_
    exact Always.nil (by decide)
  have hform : alicesForm.publish plainServices "A" (some alice.mail)
      (some "https://firebasestorage/image") = some alicesAd := by decide
  obtain ⟨doc', hdoc', -, -, ⟨ad, had, hwritten⟩, -⟩ := publish_load flatEarth none hform
    (fun i new c h => by simp [nothingThere] at h) hpress hadded hthere hrun
  obtain rfl : doc' = doc := Option.some.inj (hdoc'.symm.trans hdoc)
  exact ⟨v, x, u, doc', hpress, hadded, hrun, hdoc, hmark, ad, had, hwritten.title⟩

end VoisinMalin
