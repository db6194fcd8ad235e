import VoisinMalin.AdList

/-! The rows of the three tables. The table counts its rows at `reloadData`, UIKit passes rows below
that count to the delegate, and the delegate reads `privateAds` at the row. Whatever an event does to
`privateAds`, it reloads the table before it ends, so no row is out of range and a tap opens the ad
that the table has at the row. -/

namespace VoisinMalin

open EventMachine Collect

variable {Double Location : Type}

/-- A read past the end of `privateAds`, which stops the app. -/
structure OutOfRange where
  row : Nat
  count : Nat
deriving DecidableEq

/-- `privateAds[indexPath.row]`. -/
def ListState.ad (s : ListState Double Location) (row : Nat) :
    Except OutOfRange (DefaultAds Double) :=
  match s.privateAds[row]? with
  | some ad => .ok ad
  | none => .error ⟨row, s.privateAds.length⟩

namespace ListController

def newad (pl : Platform Double Location) (location : Option Location) :
    ListController → Fields → Except FailedCast (Option (DefaultAds Double))
  | .search => SearchListController.newad pl location
  | .favorites => FavoriteListController.newad pl
  | .home => HomeViewController.newad pl

def arrange (pl : Platform Double Location) :
    ListController → List (DefaultAds Double) → List (DefaultAds Double)
  | .search | .favorites => sortByTitle pl
  | .home => id

/-- The ad that `didSelectRowAt` makes of the ad of the row. -/
def demo (c : ListController) (adsDetail : DefaultAds Double) : DefaultAds Double where
  title := adsDetail.title
  price := adsDetail.price
  location := adsDetail.location
  image := adsDetail.image
  description := adsDetail.description
  phone := adsDetail.phone
  mail := adsDetail.mail
  documentID := adsDetail.documentID
  gpsLocationLat := adsDetail.gpsLocationLat
  gpsLocationLong := adsDetail.gpsLocationLong
  sortDistance := adsDetail.sortDistance
  isFavotites :=
    match c with
    | .search => adsDetail.isFavotites
    | .favorites | .home => false

end ListController

namespace ListState

/-- The loop of the loaders over the documents of an answer, with its reload after each ad. -/
def answerLoop (pl : Platform Double Location) (c : ListController) :
    List Fields → ListState Double Location → Option (ListState Double Location)
  | [], s => some s
  | data :: docs, s =>
    match c.newad pl s.location data with
    | .error _ => none
    | .ok none => answerLoop pl c docs s
    | .ok (some ad) =>
      answerLoop pl c docs (reloadData { s with privateAds := c.arrange pl (s.privateAds ++ [ad]) })

section Loop

variable {pl : Platform Double Location} {c : ListController} {s t : ListState Double Location}
  {docs : List Fields}

theorem load_collect (location : Option Location) (privateAds : List (DefaultAds Double)) :
    c.load pl location docs privateAds =
      collect (c.newad pl location) (c.arrange pl) docs privateAds := by
  cases c <;> rfl

theorem arrange_perm (c : ListController) (pl : Platform Double Location)
    (ads : List (DefaultAds Double)) : (c.arrange pl ads).Perm ads := by
  cases c with
  | search | favorites => exact sortByTitle_perm pl ads
  | home => exact .refl ads

/-- What the loop leaves, when no document stops it. -/
theorem answerLoop_eq : answerLoop pl c docs s =
    match c.load pl s.location docs s.privateAds with
    | .error _ => none
    | .ok ads =>
      if docs.filterMap (kept (c.newad pl s.location)) = [] then some s
      else some { s with privateAds := ads, table := ads } := by
  rw [load_collect]
  induction docs generalizing s with
  | nil => rfl
  | cons data docs ih =>
    simp only [answerLoop, collect]
    cases hdata : c.newad pl s.location data with
    | error e => rfl
    | ok o =>
      cases o with
      | none =>
        rw [List.filterMap_cons_none (kept_ok hdata)]
        exact ih
      | some ad =>
        rw [List.filterMap_cons_some (kept_ok hdata)]
        simp only [ih, reloadData, List.cons_ne_nil, if_false]
        cases hrest : collect (c.newad pl s.location) (c.arrange pl) docs
            (c.arrange pl (s.privateAds ++ [ad])) with
        | error e => rfl
        | ok ads =>
          dsimp only
          -- Where no other document has an ad, the loop leaves what this one made.
          split
          · rename_i hnone
            rw [collect_foldl hrest, hnone]
            rfl
          · rfl

/-- An answer is the loop over its documents: `answered` reloads when the loop has appended. -/
theorem answered_eq_loop : answered pl c docs s = answerLoop pl c docs s := by
  rw [answerLoop_eq, answered]
  cases hload : c.load pl s.location docs s.privateAds with
  | error e => rfl
  | ok ads =>
    rw [load_collect] at hload
    have hlength := (collect_perm (arrange_perm c pl) hload).length_eq
    rw [List.length_append] at hlength
    by_cases hnone : docs.filterMap (kept (c.newad pl s.location)) = []
    · have hsame : ads = s.privateAds := by
        rw [collect_foldl hload, hnone]
        rfl
      simp [hnone, hsame]
    · have hlonger := List.length_pos_iff.mpr hnone
      have hne : ads.length ≠ s.privateAds.length := by omega
      simp [hnone, hne, reloadData]

end Loop

/-- The rows that the table counted at its last reload are those of `privateAds`. -/
def Shown (s : ListState Double Location) : Prop := s.table = s.privateAds

section Shown

variable {pl : Platform Double Location} {c : ListController} {s t : ListState Double Location}
  {docs : List Fields} {e : ListEvent Location} {a : Asked}

theorem shown_reloadData (s : ListState Double Location) : Shown (reloadData s) := rfl

theorem Shown.take (hs : Shown s) (h : s.take a = some t) : Shown t := by
  obtain ⟨-, rfl⟩ := take_eq_some.mp h
  exact hs

theorem Shown.answerLoop (hs : Shown s) (h : ListState.answerLoop pl c docs s = some t) :
    Shown t := by
  induction docs generalizing s with
  | nil =>
    cases h
    exact hs
  | cons data docs ih =>
    simp only [ListState.answerLoop] at h
    split at h
    · contradiction
    · exact ih hs h
    · exact ih (shown_reloadData _) h

theorem Shown.sortSegmentPressed (hs : Shown s) : Shown (sortSegmentPressed pl s) := by
  unfold ListState.sortSegmentPressed
  split
  · exact shown_reloadData _
  · exact shown_reloadData _
  · exact hs

theorem Shown.step (hs : Shown s) (h : ListState.step pl c s e = some t) : Shown t := by
  cases e with
  | appear user =>
    cases h
    exact shown_reloadData _
  | answer a docs =>
    simp only [ListState.step] at h
    split at h
    · obtain ⟨u, hu, hanswered⟩ := Option.bind_eq_some_iff.mp h
      rw [answered_eq_loop] at hanswered
      exact (hs.take hu).answerLoop hanswered
    · contradiction
  | fail a => exact hs.take h
  | locate location =>
    simp only [ListState.step] at h
    split at h
    · cases h
      exact hs
    · contradiction
  | sortSegmentPressed segment =>
    simp only [ListState.step] at h
    split at h
    · cases h
      exact Shown.sortSegmentPressed (s := { s with selectedSegmentIndex := segment }) hs
    · contradiction

theorem ad_eq_ok {row : Nat} {ad : DefaultAds Double} :
    s.ad row = .ok ad ↔ s.privateAds[row]? = some ad := by
  unfold ListState.ad
  cases s.privateAds[row]? <;> simp

/-- A row of the table is one of `privateAds`. -/
theorem Shown.ad (hs : Shown s) {row : Nat} (hrow : row < s.table.length) :
    s.ad row = .ok s.table[row] := by
  rw [ad_eq_ok, ← hs]
  exact List.getElem?_eq_getElem hrow

end Shown

end ListState

open ListState

/-- A list controller with its table, the ad of the last tap, and what the swipes have under way. -/
structure TableState (Double Location : Type) where
  list : ListState Double Location
  demo : Option (DefaultAds Double)
  asked : List String -- the titles that swipes have queried
  writes : Nat

inductive TableEvent (Location : Type) where
  | list (e : ListEvent Location)
  | cellForRow (row : Nat)
  | didSelectRow (row : Nat)
  | commit (row : Nat)
  | titles (title : String) (found : Option Nat) -- the number of documents, or an error
  | written (ok : Bool)

namespace TableState

def fresh : TableState Double Location := ⟨ListState.fresh, none, [], 0⟩

/-- All three controllers configure the cell for the ad of the row. -/
def cellForRowAt (s : TableState Double Location) (row : Nat) :
    Except OutOfRange (DefaultAds Double) := s.list.ad row

def didSelectRowAt (c : ListController) (s : TableState Double Location) (row : Nat) :
    Except OutOfRange (TableState Double Location) := do
  let adsDetail ← s.list.ad row
  return { s with demo := some (c.demo adsDetail) }

/-- The `demoAd` that `prepare(for:)` gives to DetailViewController. -/
def prepare (s : TableState Double Location) : Option (DefaultAds Double) := s.demo

/-- A swipe. SearchListController has no such method, and Home's deletes a new document whatever
the row is. -/
def commit (c : ListController) (s : TableState Double Location) (row : Nat) :
    Except OutOfRange (TableState Double Location) :=
  match c with
  | .search => .ok s
  | .favorites => do
    let favoriteAd ← s.list.ad row
    return { s with asked := s.asked ++ [favoriteAd.title], list := s.list.reloadData }
  | .home => .ok { s with writes := s.writes + 1, list := s.list.reloadData }

/-- A row that UIKit passes is below the count of the last reload. -/
def passed (s : TableState Double Location) (row : Nat)
    (handler : TableState Double Location → Nat →
      Except OutOfRange (TableState Double Location)) : Option (TableState Double Location) :=
  if row < s.list.table.length then (handler s row).toOption else none

def step (pl : Platform Double Location) (c : ListController) (s : TableState Double Location) :
    TableEvent Location → Option (TableState Double Location)
  | .list e => (s.list.step pl c e).map fun list => { s with list := list }
  | .cellForRow row => s.passed row fun s row => (s.cellForRowAt row).map fun _ => s
  | .didSelectRow row => s.passed row (didSelectRowAt c)
  | .commit row => s.passed row (commit c)
  | .titles title found =>
    if title ∈ s.asked then
      some { s with asked := s.asked.erase title, writes := s.writes + found.getD 0 }
    else none
  | .written ok =>
    if s.writes = 0 then none
    else some { s with
      writes := s.writes - 1, list := if ok then s.list.reloadData else s.list }

end TableState

open TableState

/-- The table has the rows of `privateAds`, and the delegate reads the ad that the table has at the
row: no row is out of range, and a tap opens that ad. -/
structure RowsMatch (c : ListController) (s : TableState Double Location) : Prop where
  count : s.list.table.length = s.list.privateAds.length
  unchanged : s.list.privateAds = s.list.table
  cell : ∀ (row : Nat) (h : row < s.list.table.length),
    s.cellForRowAt row = .ok s.list.table[row]
  commit : ∀ row < s.list.table.length, ∃ t, TableState.commit c s row = .ok t
  tap : ∀ (row : Nat) (h : row < s.list.table.length), ∃ t demoAd,
    s.didSelectRowAt c row = .ok t ∧ t.prepare = some demoAd ∧
      { demoAd with isFavotites := s.list.table[row].isFavotites } = s.list.table[row]

section Table

variable {pl : Platform Double Location} {c : ListController} {s t : TableState Double Location}
  {e : TableEvent Location} {row : Nat}

theorem passed_some {handler : TableState Double Location → Nat →
    Except OutOfRange (TableState Double Location)} (h : s.passed row handler = some t) :
    handler s row = .ok t := by
  unfold TableState.passed at h
  split at h
  · exact toOption_eq_some h
  · contradiction

theorem didSelectRowAt_ok : s.didSelectRowAt c row = .ok t ↔
    ∃ ad, s.list.ad row = .ok ad ∧ t = { s with demo := some (c.demo ad) } := by
  unfold didSelectRowAt
  rw [except_bind_ok]
  constructor
  · rintro ⟨ad, had, hpure⟩
    cases hpure
    exact ⟨ad, had, rfl⟩
  · rintro ⟨ad, had, rfl⟩
    exact ⟨ad, had, rfl⟩

theorem demo_isFavotites (c : ListController) (ad : DefaultAds Double) :
    { c.demo ad with isFavotites := ad.isFavotites } = ad := rfl

theorem commit_shown (hs : s.list.Shown) (h : TableState.commit c s row = .ok t) :
    t.list.Shown := by
  cases c with
  | search =>
    cases h
    exact hs
  | favorites =>
    simp only [TableState.commit, except_bind_ok] at h
    obtain ⟨ad, -, hpure⟩ := h
    cases hpure
    exact shown_reloadData _
  | home =>
    cases h
    exact shown_reloadData _

theorem step_shown (hs : s.list.Shown) (h : TableState.step pl c s e = some t) : t.list.Shown := by
  cases e with
  | list e =>
    obtain ⟨list, hlist, rfl⟩ := Option.map_eq_some_iff.mp h
    exact hs.step hlist
  | cellForRow row =>
    have hpassed : s.passed row (fun s row => (s.cellForRowAt row).map fun _ => s) = some t := h
    have hcell := passed_some hpassed
    cases hrow : s.cellForRowAt row with
    | error e => simp [hrow, Except.map] at hcell
    | ok ad =>
      simp only [hrow, Except.map, Except.ok.injEq] at hcell
      exact hcell ▸ hs
  | didSelectRow row =>
    obtain ⟨ad, -, rfl⟩ := didSelectRowAt_ok.mp (passed_some h)
    exact hs
  | commit row => exact commit_shown hs (passed_some h)
  | titles title found =>
    simp only [TableState.step] at h
    split at h
    · cases h
      exact hs
    · contradiction
  | written ok =>
    simp only [TableState.step] at h
    split at h
    · contradiction
    · cases h
      cases ok with
      | true => exact shown_reloadData _
      | false => exact hs

theorem commit_ok (hs : s.list.Shown) (hrow : row < s.list.table.length) :
    ∃ t, TableState.commit c s row = .ok t := by
  cases c with
  | search | home => exact ⟨_, rfl⟩
  | favorites => exact ⟨_, except_bind_ok.mpr ⟨_, hs.ad hrow, rfl⟩⟩

theorem rowsMatch_of_shown (hs : s.list.Shown) : RowsMatch c s where
  count := congrArg List.length hs
  unchanged := hs.symm
  cell _ hrow := hs.ad hrow
  commit _ hrow := commit_ok hs hrow
  tap _ hrow :=
    ⟨_, _, didSelectRowAt_ok.mpr ⟨_, hs.ad hrow, rfl⟩, rfl, demo_isFavotites c _⟩

/-- Between two events, whatever has come before, the table has the rows of `privateAds`. -/
theorem rows_match (pl : Platform Double Location) (c : ListController)
    (es : List (TableEvent Location)) :
    Always (TableState.step pl c) (RowsMatch c) TableState.fresh es :=
  always_of_invariant (I := fun s => s.list.Shown) (fun _ _ _ hs h => step_shown hs h)
    (fun _ hs => rowsMatch_of_shown hs) rfl

end Table

/-- Alice's ad comes up in the search list, and a tap on its row opens it. -/
example : (run (TableState.step flatEarth .search) TableState.fresh
    [.list (.appear none),
      .list (.answer ⟨0, .all⟩ [(AdData.sample "Velo" "A" alice.mail).fields]), .didSelectRow 0]).map
      (fun s => s.prepare.map DefaultAds.title) = some (some "Velo") := rfl

end VoisinMalin
