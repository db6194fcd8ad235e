import VoisinMalin.DetailScreen
import VoisinMalin.AdList
import VoisinMalin.Library.Mailboxes

/-! The cells of the three tables. A cell that has left the screen is configured again for another
row, while the closures of its earlier rows still hold it: the downloads of their images, and in the
list of favourites the queries after which the cell gets its title and its price at all. Nothing
takes the old content out of the cell, so what it shows in the end is what came in last. -/

namespace VoisinMalin

open EventMachine

abbrev CellID := Nat

variable {Double URL : Type}

/-- A cell, with the ad of the row that it was last configured for. A text or an image is `none` as
long as it is that of the storyboard, an image also when the data of its URL were none. -/
structure Cell (Double URL : Type) where
  ad : Option (DefaultAds Double)
  visible : Bool
  title : Option String
  price : Option String
  location : Option String
  distance : Option String
  image : Option URL

structure CellServices (Double URL : Type) where
  urls : URLs URL
  format : Double → String -- with "%.0f"

/-- What comes of `Data(contentsOf:)` and `UIImage(data:)`. -/
inductive Download where
  | failed
  | noImage
  | image
deriving DecidableEq

/-- A list controller with the cells of its table, and what it has under way: the queries of
favourite cells, the downloads, and the images on the main queue. -/
structure CellState (Double URL : Type) where
  privateAds : List (DefaultAds Double)
  isHidden : Bool -- of the table
  noAdsLabelHidden : Bool
  cells : CellID → Cell Double URL
  queries : List (CellID × DefaultAds Double)
  downloads : List (CellID × URL)
  mainQueue : List (CellID × Option URL)

inductive CellEvent (Double URL : Type) where
  | reloadData (privateAds : List (DefaultAds Double))
  | endDisplay (id : CellID)
  | cellForRow (id : CellID) (row : Nat) (userMail : Option String)
  | answer (id : CellID) (favoriteAd : DefaultAds Double) (found : Option Nat) -- `none` is an error
  | downloaded (id : CellID) (url : URL) (result : Download)
  | setImage (id : CellID) (image : Option URL)

def Cell.texts (cell : Cell Double URL) (ad : DefaultAds Double) : Cell Double URL :=
  { cell with title := some ad.title, price := some (ad.price ++ "€") }

/-- The image that a download sends to the main queue. -/
def Download.sends (url : URL) : Download → Option (Option URL)
  | .failed => none
  | .noImage => some none
  | .image => some (some url)

namespace CellState

def fresh : CellState Double URL where
  privateAds := []
  isHidden := false
  noAdsLabelHidden := true
  cells := fun _ => ⟨none, false, none, none, none, none, none⟩
  queries := []
  downloads := []
  mainQueue := []

def set (s : CellState Double URL) (id : CellID) (cell : Cell Double URL) : CellState Double URL :=
  { s with cells := Function.update s.cells id cell }

/-- `UIImageView.load(url:)`. -/
def load (s : CellState Double URL) (id : CellID) (url : URL) : CellState Double URL :=
  { s with downloads := s.downloads ++ [(id, url)] }

def cellForRowAt (sv : CellServices Double URL) (c : ListController) (s : CellState Double URL)
    (id : CellID) (currentAd : DefaultAds Double) (userMail : Option String) :
    Except NoURL (CellState Double URL) :=
  let cell := { s.cells id with ad := some currentAd, visible := true }
  match c with
  | .search => do
    let url ← sv.urls.forced currentAd.image
    return (s.set id { cell.texts currentAd with
      location := some currentAd.location,
      distance := some (sv.format currentAd.sortDistance ++ " Kms") }).load id url
  | .favorites => .ok { s.set id cell with queries := s.queries ++ [(id, currentAd)] }
  | .home =>
    if some currentAd.mail = userMail then do
      let url ← sv.urls.forced currentAd.image
      return (s.set id (cell.texts currentAd)).load id url
    else .ok { s.set id cell with isHidden := true, noAdsLabelHidden := false }

/-- The callback of a favourite cell's query, once for each document. -/
def answered (sv : CellServices Double URL) (id : CellID) (favoriteAd : DefaultAds Double) :
    Nat → CellState Double URL → Except NoURL (CellState Double URL)
  | 0, s => .ok s
  | n + 1, s => do
    let url ← sv.urls.forced favoriteAd.image
    answered sv id favoriteAd n ((s.set id ((s.cells id).texts favoriteAd)).load id url)

variable [DecidableEq Double] [DecidableEq URL]

def step (sv : CellServices Double URL) (c : ListController) (s : CellState Double URL) :
    CellEvent Double URL → Option (CellState Double URL)
  | .reloadData privateAds => some { s with
      privateAds := privateAds, cells := fun id => { s.cells id with visible := false } }
  | .endDisplay id => some (s.set id { s.cells id with visible := false })
  -- A cell on the screen is not dequeued.
  | .cellForRow id row userMail =>
    if (s.cells id).visible then none
    else s.privateAds[row]?.bind fun currentAd =>
      (cellForRowAt sv c s id currentAd userMail).toOption
  | .answer id favoriteAd found =>
    if (id, favoriteAd) ∈ s.queries then
      (answered sv id favoriteAd (found.getD 0)
        { s with queries := s.queries.erase (id, favoriteAd) }).toOption
    else none
  | .downloaded id url result =>
    if (id, url) ∈ s.downloads then some { s with
      downloads := s.downloads.erase (id, url),
      mainQueue := s.mainQueue ++ ((result.sends url).map (Prod.mk id)).toList }
    else none
  | .setImage id image =>
    match s.mainQueue with
    | [] => none
    | first :: rest =>
      if first = (id, image) then
        some { s.set id { s.cells id with image := image } with mainQueue := rest }
      else none

/-- Nothing is under way. -/
structure Idle (s : CellState Double URL) : Prop where
  queries : s.queries = []
  downloads : s.downloads = []
  mainQueue : s.mainQueue = []

/-- The cell is on the screen, for the row of `ad`. -/
structure Showing (s : CellState Double URL) (id : CellID) (ad : DefaultAds Double) : Prop where
  ad : (s.cells id).ad = some ad
  visible : (s.cells id).visible = true
  table : s.isHidden = false

/-- No cell on the screen shows a title, a price or an image of an ad other than that of its row. -/
def OwnContent (sv : CellServices Double URL) (s : CellState Double URL) : Prop :=
  ∀ id ad, s.Showing id ad →
    (∀ title, (s.cells id).title = some title → title = ad.title) ∧
    (∀ price, (s.cells id).price = some price → price = ad.price ++ "€") ∧
    ∀ url, (s.cells id).image = some url → sv.urls.string ad.image = some url

end CellState

/-- The image that a download brings to a cell. -/
def CellEvent.image (id : CellID) : CellEvent Double URL → Option (Option URL)
  | .downloaded id' url result => if id = id' then result.sends url else none
  | _ => none

/-- The ad that an answer with a document is about, for the cell of the query. -/
def CellEvent.answeredAd (id : CellID) : CellEvent Double URL → Option (DefaultAds Double)
  | .answer id' favoriteAd found =>
    if id = id' ∧ found.getD 0 ≠ 0 then some favoriteAd else none
  | _ => none

open CellState Inbox

/-- Of what the events have brought to the cell, the last image is that of `ad` or none, and the last
answer with a document is about its title and its price. -/
structure LastOwn (sv : CellServices Double URL) (c : ListController)
    (es : List (CellEvent Double URL)) (id : CellID) (ad : DefaultAds Double) : Prop where
  image : ∀ url, lastOf (CellEvent.image id) es = some (some url) →
    sv.urls.string ad.image = some url
  answer : c = .favorites → ∀ favoriteAd, lastOf (CellEvent.answeredAd id) es = some favoriteAd →
    favoriteAd.title = ad.title ∧ favoriteAd.price = ad.price

/-- The image that a cell will have when the main queue is through. -/
def CellState.landing (s : CellState Double URL) (id : CellID) : Option URL :=
  settled (fun image (m : CellID × Option URL) => if id = m.1 then m.2 else image)
    (s.cells id).image s.mainQueue

/-- What the configuration of the cell `id` for `ad` leaves and what it does: favourites only send a
query, the others set the texts of the cell or hide the table. -/
structure CellState.Configures (c : ListController) (s t : CellState Double URL) (id : CellID)
    (ad : DefaultAds Double) : Prop where
  mainQueue : t.mainQueue = s.mainQueue
  others : ∀ i, i ≠ id → t.cells i = s.cells i
  row : (t.cells id).ad = some ad
  image : (t.cells id).image = (s.cells id).image
  asks : c = .favorites → (t.cells id).title = (s.cells id).title ∧
    (t.cells id).price = (s.cells id).price
  sets : c ≠ .favorites → t.queries = s.queries ∧ (t.isHidden = false → s.isHidden = false ∧
    (t.cells id).title = some ad.title ∧ (t.cells id).price = some (ad.price ++ "€"))

/-- In the other two lists a cell of a table that is not hidden has the texts of its row, and no
query is under way. -/
structure CellState.OwnTexts (s : CellState Double URL) : Prop where
  queries : s.queries = []
  texts : s.isHidden = false → ∀ id ad, (s.cells id).ad = some ad →
    (s.cells id).title = some ad.title ∧ (s.cells id).price = some (ad.price ++ "€")

section Handlers

variable {sv : CellServices Double URL} {c : ListController} {s t : CellState Double URL}
  {id i : CellID} {ad : DefaultAds Double} {cell : Cell Double URL}

@[simp] theorem set_cells : (s.set id cell).cells id = cell := by
  simp [CellState.set]

@[simp] theorem set_cells_ne (h : i ≠ id) : (s.set id cell).cells i = s.cells i := by
  simp [CellState.set, h]

@[simp] theorem load_cells {url : URL} : (s.load id url).cells = s.cells := rfl

/-- What a new value of a cell leaves as it was. -/
theorem set_field {β : Type} (f : Cell Double URL → β) (h : f cell = f (s.cells id)) :
    f ((s.set id cell).cells i) = f (s.cells i) := by
  by_cases hi : i = id
  · subst hi
    rw [set_cells, h]
  · rw [set_cells_ne hi]

theorem landing_eq (hqueue : t.mainQueue = s.mainQueue)
    (himage : (t.cells i).image = (s.cells i).image) : t.landing i = s.landing i := by
  rw [landing, landing, hqueue, himage]

/-- The configuration in the lists that set the texts at once. -/
theorem configures_texts {url : URL} (hc : c ≠ .favorites) (had : cell.ad = some ad)
    (himage : cell.image = (s.cells id).image) (htitle : cell.title = some ad.title)
    (hprice : cell.price = some (ad.price ++ "€")) :
    Configures c s ((s.set id cell).load id url) id ad := by
  refine ⟨rfl, fun i hi => set_cells_ne hi, ?_, ?_, fun h => absurd h hc,
    fun _ => ⟨rfl, fun hhidden => ⟨hhidden, ?_⟩⟩⟩ <;> rw [load_cells, set_cells]
  · exact had
  · exact himage
  · exact ⟨htitle, hprice⟩

theorem cellForRowAt_configures {userMail : Option String}
    (h : cellForRowAt sv c s id ad userMail = .ok t) : Configures c s t id ad := by
  cases c with
  | search =>
    obtain ⟨url, -, hurl⟩ := except_bind_ok.mp h
    cases hurl
    exact configures_texts (by decide) rfl rfl rfl rfl
  | favorites =>
    cases h
    refine ⟨rfl, fun i hi => set_cells_ne hi, ?_, ?_, fun _ => ?_, fun hc => absurd rfl hc⟩ <;>
      simp
  | home =>
    simp only [cellForRowAt] at h
    split at h
    · obtain ⟨url, -, hurl⟩ := except_bind_ok.mp h
      cases hurl
      exact configures_texts (by decide) rfl rfl rfl rfl
    · -- The table is hidden from now on.
      cases h
      refine ⟨rfl, fun i hi => set_cells_ne hi, ?_, ?_, fun hc => ?_,
        fun _ => ⟨rfl, fun hhidden => ?_⟩⟩
      · simp
      · simp
      · contradiction
      · contradiction

/-- An answer with a document gives the cell its texts, whatever row it has by then. -/
theorem answered_ok {n : Nat} (h : answered sv id ad n s = .ok t) : t.mainQueue = s.mainQueue ∧
    ∀ i, t.cells i = if i = id ∧ n ≠ 0 then (s.cells i).texts ad else s.cells i := by
  induction n generalizing s with
  | zero =>
    cases h
    simp
  | succ n ih =>
    obtain ⟨url, -, hrest⟩ := except_bind_ok.mp h
    obtain ⟨hqueue, hcells⟩ := ih hrest
    refine ⟨hqueue, fun i => ?_⟩
    rw [hcells i]
    by_cases hi : i = id
    · subst hi
      simp [Cell.texts]
    · simp [hi]

theorem CellState.OwnTexts.set {cell : Cell Double URL} (hs : s.OwnTexts)
    (had : cell.ad = (s.cells id).ad) (htitle : cell.title = (s.cells id).title)
    (hprice : cell.price = (s.cells id).price) : (s.set id cell).OwnTexts := by
  refine ⟨hs.queries, fun hhidden i ad h => ?_⟩
  rw [set_field Cell.ad had] at h
  rw [set_field Cell.title htitle, set_field Cell.price hprice]
  exact hs.texts hhidden i ad h

end Handlers

section Step

variable [DecidableEq Double] [DecidableEq URL] {sv : CellServices Double URL} {c : ListController}
  {s t : CellState Double URL} {e : CellEvent Double URL} {id i : CellID}
  {ad favoriteAd : DefaultAds Double}

theorem step_cellForRow {row : Nat} {userMail : Option String}
    (h : step sv c s (.cellForRow id row userMail) = some t) : ∃ ad, Configures c s t id ad := by
  simp only [CellState.step] at h
  split at h
  · contradiction
  · obtain ⟨ad, -, hcell⟩ := Option.bind_eq_some_iff.mp h
    exact ⟨ad, cellForRowAt_configures (toOption_eq_some hcell)⟩

theorem step_answer {found : Option Nat} (h : step sv c s (.answer id ad found) = some t) :
    (id, ad) ∈ s.queries ∧ t.mainQueue = s.mainQueue ∧
      ∀ i, t.cells i = if i = id ∧ found.getD 0 ≠ 0 then (s.cells i).texts ad else s.cells i := by
  simp only [CellState.step] at h
  split at h
  · rename_i hmem
    obtain ⟨hqueue, hcells⟩ := answered_ok (toOption_eq_some h)
    exact ⟨hmem, hqueue, hcells⟩
  · contradiction

theorem step_downloaded {url : URL} {result : Download}
    (h : step sv c s (.downloaded id url result) = some t) :
    t = { s with
      downloads := s.downloads.erase (id, url),
      mainQueue := s.mainQueue ++ ((result.sends url).map (Prod.mk id)).toList } := by
  obtain ⟨-, ht⟩ := Option.ite_none_right_eq_some.mp h
  exact (Option.some.inj ht).symm

theorem step_setImage {image : Option URL} (h : step sv c s (.setImage id image) = some t) :
    ∃ rest, s.mainQueue = (id, image) :: rest ∧
      t = { s.set id { s.cells id with image := image } with mainQueue := rest } := by
  simp only [CellState.step] at h
  split at h
  · contradiction
  · rename_i first rest hqueue
    obtain ⟨hfirst, ht⟩ := Option.ite_none_right_eq_some.mp h
    exact ⟨rest, by rw [hqueue, hfirst], (Option.some.inj ht).symm⟩

/-- The image that a cell will have changes with a download that comes in, and with nothing else. -/
theorem step_landing (h : step sv c s e = some t) :
    t.landing i = (e.image i).getD (s.landing i) := by
  cases e with
  | reloadData privateAds =>
    cases h
    rfl
  | endDisplay id =>
    cases h
    exact landing_eq rfl (set_field Cell.image rfl)
  | cellForRow id row userMail =>
    obtain ⟨ad, hconf⟩ := step_cellForRow h
    refine landing_eq hconf.mainQueue ?_
    by_cases hi : i = id
    · rw [hi, hconf.image]
    · rw [hconf.others i hi]
  | answer id ad found =>
    obtain ⟨-, hqueue, hcells⟩ := step_answer h
    refine landing_eq hqueue ?_
    rw [hcells i]
    split <;> rfl
  | downloaded id url result =>
    obtain rfl := step_downloaded h
    simp only [CellEvent.image, landing, settled_append]
    cases hsends : result.sends url with
    | none => simp [settled]
    | some image =>
      by_cases hi : i = id <;> simp [settled, hi]
  | setImage id image =>
    obtain ⟨rest, hqueue, rfl⟩ := step_setImage h
    simp only [CellEvent.image, landing, hqueue, settled_cons, Option.getD_none]
    by_cases hi : i = id
    · subst hi
      simp
    · simp [hi]

/-- In the list of favourites a cell has the texts of the last answer with a document. -/
theorem step_answered {answer : Option (DefaultAds Double)}
    (hs : (s.cells i).title = answer.map DefaultAds.title ∧
      (s.cells i).price = answer.map fun ad => ad.price ++ "€")
    (h : step sv .favorites s e = some t) :
    (t.cells i).title = ((e.answeredAd i).or answer).map DefaultAds.title ∧
      (t.cells i).price = ((e.answeredAd i).or answer).map fun ad => ad.price ++ "€" := by
  cases e with
  | reloadData privateAds =>
    cases h
    exact hs
  | endDisplay id =>
    cases h
    exact ⟨Eq.trans (set_field Cell.title rfl) hs.1, Eq.trans (set_field Cell.price rfl) hs.2⟩
  | cellForRow id row userMail =>
    obtain ⟨ad, hconf⟩ := step_cellForRow h
    by_cases hi : i = id
    · subst hi
      rw [(hconf.asks rfl).1, (hconf.asks rfl).2]
      exact hs
    · rw [hconf.others i hi]
      exact hs
  | answer id ad found =>
    obtain ⟨-, -, hcells⟩ := step_answer h
    rw [hcells i, CellEvent.answeredAd]
    split
    · exact ⟨rfl, rfl⟩
    · exact hs
  | downloaded id url result =>
    obtain rfl := step_downloaded h
    exact hs
  | setImage id image =>
    obtain ⟨rest, -, rfl⟩ := step_setImage h
    exact ⟨Eq.trans (set_field Cell.title rfl) hs.1, Eq.trans (set_field Cell.price rfl) hs.2⟩

theorem step_ownTexts (hc : c ≠ .favorites) (hs : s.OwnTexts) (h : step sv c s e = some t) :
    t.OwnTexts := by
  cases e with
  | reloadData privateAds =>
    cases h
    exact ⟨hs.queries, hs.texts⟩
  | endDisplay id =>
    cases h
    exact hs.set rfl rfl rfl
  | cellForRow id row userMail =>
    obtain ⟨own, hconf⟩ := step_cellForRow h
    obtain ⟨hqueries, hsets⟩ := hconf.sets hc
    refine ⟨hqueries.trans hs.queries, fun hhidden i ad had => ?_⟩
    obtain ⟨hbefore, htexts⟩ := hsets hhidden
    by_cases hi : i = id
    · subst hi
      rw [hconf.row] at had
      cases had
      exact htexts
    · rw [hconf.others i hi] at had ⊢
      exact hs.texts hbefore i ad had
  | answer id ad found =>
    have hmem := (step_answer h).1
    simp [hs.queries] at hmem
  | downloaded id url result =>
    obtain rfl := step_downloaded h
    exact ⟨hs.queries, hs.texts⟩
  | setImage id image =>
    obtain ⟨rest, -, rfl⟩ := step_setImage h
    have hset : (s.set id { s.cells id with image := image }).OwnTexts := hs.set rfl rfl rfl
    exact ⟨hset.queries, hset.texts⟩

end Step

section Run

variable [DecidableEq Double] [DecidableEq URL] {sv : CellServices Double URL} {c : ListController}
  {s : CellState Double URL} {es : List (CellEvent Double URL)} {id : CellID}
  {ad : DefaultAds Double}

/-- When the main queue is through, a cell has the image of the last download that came in for it. -/
theorem run_image (h : run (step sv c) fresh es = some s) (hidle : s.Idle) :
    (s.cells id).image = (lastOf (CellEvent.image id) es).join := by
  have hlanding : s.landing id = ((lastOf (CellEvent.image id) es).or none).join := by
    refine run_lastOf (P := fun image (s : CellState Double URL) => s.landing id = image.join)
      (fun image s e t hs ht => ?_) rfl h
    rw [step_landing ht, hs]
    cases e.image id <;> rfl
  rw [landing, hidle.mainQueue, Option.or_none] at hlanding
  exact hlanding

theorem run_texts (h : run (step sv .favorites) fresh es = some s) :
    (s.cells id).title = (lastOf (CellEvent.answeredAd id) es).map DefaultAds.title ∧
      (s.cells id).price = (lastOf (CellEvent.answeredAd id) es).map fun ad => ad.price ++ "€" := by
  have htexts := run_lastOf (P := fun answer (s : CellState Double URL) =>
      (s.cells id).title = answer.map DefaultAds.title ∧
        (s.cells id).price = answer.map fun ad => ad.price ++ "€")
    (fun answer s e t hs ht => step_answered hs ht) (b := none) ⟨rfl, rfl⟩ h
  rwa [Option.or_none] at htexts

theorem run_ownTexts (hc : c ≠ .favorites) (h : run (step sv c) fresh es = some s) : s.OwnTexts :=
  run_preserves (fun _ _ _ hs ht => step_ownTexts hc hs ht)
    ⟨rfl, fun _ id ad had => by simp [fresh] at had⟩ h

/-- A cell on the screen of an idle table has the content of its row exactly when what the run has
brought to it last is of its row. -/
theorem showing_iff (h : run (step sv c) fresh es = some s) (hidle : s.Idle)
    (hshowing : s.Showing id ad) :
    ((∀ title, (s.cells id).title = some title → title = ad.title) ∧
      (∀ price, (s.cells id).price = some price → price = ad.price ++ "€") ∧
      ∀ url, (s.cells id).image = some url → sv.urls.string ad.image = some url) ↔
      LastOwn sv c es id ad := by
  rw [run_image h hidle]
  simp only [Option.join_eq_some_iff]
  by_cases hc : c = .favorites
  · subst hc
    obtain ⟨htitle, hprice⟩ : (s.cells id).title =
          (lastOf (CellEvent.answeredAd id) es).map DefaultAds.title ∧ (s.cells id).price =
          (lastOf (CellEvent.answeredAd id) es).map fun ad => ad.price ++ "€" := run_texts h
    rw [htitle, hprice]
    constructor
    · rintro ⟨htitles, hprices, himage⟩
      refine ⟨himage, fun _ favoriteAd hlast => ⟨htitles _ (by rw [hlast]; rfl), ?_⟩⟩
      have hsame := hprices (favoriteAd.price ++ "€") (by rw [hlast]; rfl)
      exact (String.append_left_inj "€").mp hsame
    · rintro ⟨himage, hanswer⟩
      refine ⟨fun title hlast => ?_, fun price hlast => ?_, himage⟩
      · obtain ⟨favoriteAd, hfavorite, rfl⟩ := Option.map_eq_some_iff.mp hlast
        exact (hanswer rfl favoriteAd hfavorite).1
      · obtain ⟨favoriteAd, hfavorite, rfl⟩ := Option.map_eq_some_iff.mp hlast
        rw [(hanswer rfl favoriteAd hfavorite).2]
  · obtain ⟨htitle, hprice⟩ := (run_ownTexts hc h).texts hshowing.table id ad hshowing.ad
    rw [htitle, hprice]
    constructor
    · exact fun hown => ⟨hown.2.2, fun hfavorites => absurd hfavorites hc⟩
    · rintro ⟨himage, -⟩
      refine ⟨fun title hsome => (Option.some.inj hsome).symm, fun price hsome => ?_, himage⟩
      exact (Option.some.inj hsome).symm

/-- In every idle state of a run each cell on the screen shows the content of its row if and only if,
in each of these states, the last image that came in for the cell is that of its row, or none, and in
the list of favourites the last answer with a document is about its row's title and price. -/
theorem ownContent_iff (sv : CellServices Double URL) (c : ListController)
    (es : List (CellEvent Double URL)) :
    Always (step sv c) (fun s => s.Idle → OwnContent sv s) fresh es ↔
      ∀ fs gs s, es = fs ++ gs → run (step sv c) fresh fs = some s → s.Idle →
        ∀ id ad, s.Showing id ad → LastOwn sv c fs id ad := by
  rw [always_iff_run]
  refine forall_congr' fun fs => forall₂_congr fun gs s => forall₂_congr fun _ hrun => ?_
  refine forall_congr' fun hidle => forall₂_congr fun id ad => forall_congr' fun hshowing => ?_
  exact showing_iff hrun hidle hshowing

end Run

/-- The URLs of texts, and whole kilometres. -/
def plainCells : CellServices Nat URLText := ⟨plainURLs, fun n => toString n⟩

def veloAd : DefaultAds Nat := (AdData.sample "Velo" "A" alice.mail).toAd 0

def tableAd : DefaultAds Nat :=
  { (AdData.sample "Table" "B" bob.mail).toAd 0 with image := "https://firebasestorage/table" }

def tableURL : URLText := ⟨"https://firebasestorage/table", by decide⟩

/-- A cell scrolls out of the row of one ad and into that of another, whose image is loaded first. -/
def scrolled : List (CellEvent Nat URLText) :=
  [.reloadData [veloAd, tableAd], .cellForRow 0 0 none, .endDisplay 0, .cellForRow 0 1 none,
    .downloaded 0 tableURL .image, .setImage 0 (some tableURL), .downloaded 0 imageURL .image,
    .setImage 0 (some imageURL)]

/-- A favourite cell scrolls into the row of an ad that has lost its mark. -/
def scrolledUnmarked : List (CellEvent Nat URLText) :=
  [.reloadData [veloAd, tableAd], .cellForRow 0 0 none, .answer 0 veloAd (some 1),
    .downloaded 0 imageURL .image, .setImage 0 (some imageURL), .endDisplay 0,
    .cellForRow 0 1 none, .answer 0 tableAd (some 0)]

/-- In the search list the row of the table shows the image of the bike, in the list of favourites
also its title. -/
theorem scrolled_foreign :
    (∃ s, run (step plainCells .search) fresh scrolled = some s ∧ s.Idle ∧ s.Showing 0 tableAd ∧
      (s.cells 0).image = some imageURL ∧ ¬OwnContent plainCells s) ∧
    ∃ s, run (step plainCells .favorites) fresh scrolledUnmarked = some s ∧ s.Idle ∧
      s.Showing 0 tableAd ∧ (s.cells 0).title = some "Velo" ∧ ¬OwnContent plainCells s := by
  constructor
  · refine ⟨_, rfl, ⟨rfl, rfl, rfl⟩, ⟨rfl, rfl, rfl⟩, rfl, fun hown => ?_⟩
    exact absurd ((hown 0 tableAd ⟨rfl, rfl, rfl⟩).2.2 imageURL rfl) (by decide)
  · refine ⟨_, rfl, ⟨rfl, rfl, rfl⟩, ⟨rfl, rfl, rfl⟩, rfl, fun hown => ?_⟩
    exact absurd ((hown 0 tableAd ⟨rfl, rfl, rfl⟩).1 "Velo" rfl) (by decide)

end VoisinMalin
