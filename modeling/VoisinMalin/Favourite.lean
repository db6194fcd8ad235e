import VoisinMalin.Operation

/-! The favourite button of the detail screen and the swipe in the list of favourites. Both look the
ad up by its title and write to every document of the answer, so they touch the ad they are applied
to and nothing else if and only if every other document of that title is already as they leave it. -/

namespace VoisinMalin

open EventMachine World

variable {Double : Type}

/-- What a favourite action leaves in the field of the mark. -/
def markValue (adds : Bool) : Option Value := if adds then some (.string "") else none

def markWrite (adds : Bool) (key : MarkKey) (id : DocID) : Write :=
  if adds then .setData id key else .updateData id key

theorem markWrite_id (adds : Bool) (key : MarkKey) (id : DocID) :
    (markWrite adds key id).id = id := by
  cases adds <;> rfl

theorem markWrite_document (adds : Bool) (key : MarkKey) (id : DocID) (data : Fields) :
    (markWrite adds key id).document (some data) =
      some (some (Function.update data key.name (markValue adds))) := by
  cases adds <;> rfl

/-- A favourite write to a document that is there succeeds. -/
theorem markWrite_apply {ads : Collection} {id : DocID} {data : Fields} (adds : Bool)
    (key : MarkKey) (h : ads.lookup id = some data) :
    ∃ ads', (markWrite adds key id).apply ads = some ads' ∧ ∀ i, ads'.lookup i =
      if i = id then some (Function.update data key.name (markValue adds)) else ads.lookup i := by
  have hdocument : (markWrite adds key id).document (ads.lookup (markWrite adds key id).id) =
      some (some (Function.update data key.name (markValue adds))) := by
    rw [markWrite_id, h, markWrite_document]
  refine ⟨_, by rw [Write.apply, hdocument]; rfl, fun i => ?_⟩
  rw [markWrite_id]
  exact Collection.lookup_put ads id i _

/-- What a favourite write does to the documents. -/
theorem step_mark {w u : World Double} {adds : Bool} {key : MarkKey} {id : DocID} {c : Completion}
    (there : id ∈ w.ads) (hstep : step w (.apply (markWrite adds key id) c) = some u) :
    ∃ data, w.ads.lookup id = some data ∧ ∀ i, u.ads.lookup i =
      if i = id then some (Function.update data key.name (markValue adds)) else w.ads.lookup i := by
  obtain ⟨data, hdata⟩ := Finmap.mem_iff.mp there
  obtain ⟨ads', happly, hads⟩ := markWrite_apply adds key hdata
  obtain ⟨-, ⟨ads, happly', rfl⟩ | ⟨happly', -⟩⟩ := step_apply hstep
  · rw [happly] at happly'
    cases happly'
    exact ⟨data, hdata, hads⟩
  · rw [happly] at happly'
    contradiction

/-- `favoriteButton` adds the mark unless the screen has the ad among the favourites. -/
def Screen.adds (s : Screen Double) : Bool := s.inFavorite != some true

theorem favoriteWrites_eq (s : Screen Double) (user : Option User) (sc : ScreenID)
    (ids : List DocID) : favoriteWrites s user sc ids = ids.map fun id =>
      .write (markWrite s.adds (markOrUnknown user) id)
        (if s.adds then .misEnFavoris sc else .favorisRemoved sc) := by
  unfold favoriteWrites
  congr 1
  funext id
  by_cases h : s.inFavorite = some true <;> simp [h, Screen.adds, markWrite]

/-- `favoriteButton` as an operation: it writes the mark of the signed-in user, or removes it, in
the documents with the displayed title. -/
def favoriteButton (w : World Double) (sc : ScreenID) (s : Screen Double)
    (hs : w.screens sc = some s) : Operation w where
  event := .favoriteButton sc
  query := ⟨s.demoAd.title, none⟩
  callback := .favoriteButton sc
  write := markWrite s.adds (markOrUnknown (w.session s.device))
  completion := if s.adds then .misEnFavoris sc else .favorisRemoved sc
  update := fun data =>
    some (Function.update data (markOrUnknown (w.session s.device)).name (markValue s.adds))
  asks := by simp [step, hs]
  answers := by
    intro u ids hsession hscreens
    simp only [answered, hscreens, hs, hsession, favoriteWrites_eq]
  addresses := markWrite_id _ _
  updates := markWrite_document _ _

/-- The swipe in the list of favourites as an operation: it removes the mark of the signed-in user
from the documents with the title of the row. -/
def commit (w : World Double) (dev : DeviceID) (favoriteAd : DefaultAds Double) : Operation w where
  event := .commit dev favoriteAd
  query := ⟨favoriteAd.title, none⟩
  callback := .commit dev
  write := markWrite false (markOrUnknown (w.session dev))
  completion := .commit dev
  update := fun data =>
    some (Function.update data (markOrUnknown (w.session dev)).name (markValue false))
  asks := rfl
  answers := by
    intro u ids hsession _
    simp only [answered, hsession, markWrite, Bool.false_eq_true, ite_false]
  addresses := markWrite_id _ _
  updates := markWrite_document _ _

/-- A favourite action of `user` on `ad`: a press on a detail screen of the ad, which adds or
removes the mark, or a swipe on its row, which removes it. -/
inductive FavouriteAction (w : World Double) (user : User) :
    DefaultAds Double → Bool → Event Double → Prop
  | press {sc : ScreenID} {s : Screen Double} (screen : w.screens sc = some s)
      (session : w.session s.device = some user) :
      FavouriteAction w user s.demoAd s.adds (.favoriteButton sc)
  | swipe {dev : DeviceID} (ad : DefaultAds Double) (session : w.session dev = some user) :
      FavouriteAction w user ad false (.commit dev ad)

section Action

variable {w u : World Double} {user : User} {ad : DefaultAds Double} {adds : Bool}
  {e : Event Double} {es : List (Event Double)}

theorem FavouriteAction.finished (h : FavouriteAction w user ad adds e) (hidle : w.pending = [])
    (hrun : run step w (e :: es) = some u) (hes : ∀ e ∈ es, e.progresses = true)
    (hdone : u.pending = []) (id : DocID) :
    u.ads.lookup id = (w.ads.lookup id).bind fun data =>
      if whereField K.titleField ad.title data = true then
        some (Function.update data user.uid.name (markValue adds))
      else some data := by
  cases h with
  | press hs hsession =>
    rw [(favoriteButton w _ _ hs).finished hidle hrun hes hdone id]
    simp [favoriteButton, Query.selects, hsession]
  | swipe ad hsession =>
    rw [(commit w _ ad).finished hidle hrun hes hdone id]
    simp [commit, Query.selects, hsession]

/-- `after` is `before` but for the field `field` of the document with the given `documentID`. -/
def TouchesOnly (documentID field : String) (before after : Collection) : Prop :=
  (∀ id, before.lookup id = none → after.lookup id = none) ∧
  ∀ id data, before.lookup id = some data → ∃ data', after.lookup id = some data' ∧
    ∀ f, data' f ≠ data f → f = field ∧ data K.documentID = some (.string documentID)

/-- A favourite action, followed to its last acknowledgement, changes at most the mark of its user
in the document of its ad exactly when every other document with that title already is in the state
that the action writes. -/
theorem favourite_touchesOnly_iff (h : FavouriteAction w user ad adds e) (hidle : w.pending = [])
    (hrun : run step w (e :: es) = some u) (hes : ∀ e ∈ es, e.progresses = true)
    (hdone : u.pending = []) :
    TouchesOnly ad.documentID user.uid.name w.ads u.ads ↔
      ∀ id data, w.ads.lookup id = some data →
        data K.titleField = some (.string ad.title) →
        data K.documentID ≠ some (.string ad.documentID) →
        data user.uid.name = markValue adds := by
  have hfinished := h.finished hidle hrun hes hdone
  constructor
  · rintro ⟨-, hsome⟩ id data hdata htitle hother
    by_contra hmark
    obtain ⟨data', hdata', honly⟩ := hsome id data hdata
    have hwritten := hfinished id
    simp only [hdata, Option.bind_some, whereField_iff.mpr htitle, ite_true] at hwritten
    rw [hdata'] at hwritten
    cases hwritten
    have hchanged := honly user.uid.name (by rw [Function.update_self]; exact Ne.symm hmark)
    exact hother hchanged.2
  · intro h
    refine ⟨fun id hnone => by simp [hfinished id, hnone], fun id data hdata => ?_⟩
    by_cases htitle : whereField K.titleField ad.title data = true
    · refine ⟨_, by rw [hfinished id, hdata, Option.bind_some, if_pos htitle], fun f hf => ?_⟩
      have hfield : f = user.uid.name := by
        by_contra hne
        exact hf (Function.update_of_ne hne _ _)
      subst hfield
      rw [Function.update_self] at hf
      refine ⟨rfl, ?_⟩
      by_contra hother
      exact hf (h id data hdata (whereField_iff.mp htitle) hother).symm
    · exact ⟨data, by rw [hfinished id, hdata, Option.bind_some, if_neg htitle],
        fun f hf => absurd rfl hf⟩

end Action

/-- The detail screen of an ad of Alice on Bob's device, in a collection with another of her ads. -/
def bobLooks (firstTitle secondTitle : String) : World Nat where
  ads := Collection.pair (.sample firstTitle "A" alice.mail) (.sample secondTitle "B" alice.mail)
  session := fun _ => some bob
  screens := fun _ => some ⟨0, (AdData.sample firstTitle "A" alice.mail).toAd 0, none⟩
  pending := []
  drawn := {1, 2}

/-- Bob's press on that screen and what follows when the answer has the documents `ids`. -/
def favouriting (ids : List DocID) : List (Event Nat) :=
  .favoriteButton 0 :: .evaluate ⟨"Velo", none⟩ (.favoriteButton 0) ids ::
    .deliver (.answer ids (.favoriteButton 0)) ::
    (ids.map fun id => .apply (.setData id bob.uid) (.misEnFavoris 0)) ++
    ids.map fun _ => .deliver (.ack true (.misEnFavoris 0))

/-- With an ad of another title beside it, the displayed ad alone is marked. -/
theorem favourite_touchesOnly_velo : ∃ u,
    run step (bobLooks "Velo" "Table") (favouriting [1]) = some u ∧
    TouchesOnly "A" bob.uid.name (bobLooks "Velo" "Table").ads u.ads := by
  obtain ⟨u, hrun, hdone⟩ : ∃ u, run step (bobLooks "Velo" "Table") (favouriting [1]) = some u ∧
      u.pending = [] := ⟨_, rfl, rfl⟩
  refine ⟨u, hrun, (favourite_touchesOnly_iff (.press rfl rfl) rfl hrun (by decide) hdone).mpr ?_⟩
  intro id data hdata htitle hother
  rcases Collection.pair_cases hdata with rfl | rfl
  · exact absurd rfl hother
  · exact absurd (Value.string.inj (Option.some.inj htitle)) (by decide)

/-- With two ads of one title, a press on the first marks the second as well. -/
theorem favourite_touches_namesake : ∃ u,
    run step (bobLooks "Velo" "Velo") (favouriting [1, 2]) = some u ∧ u.pending = [] ∧
    DistinctDocumentIDs (bobLooks "Velo" "Velo").ads ∧
    ¬TouchesOnly "A" bob.uid.name (bobLooks "Velo" "Velo").ads u.ads := by
  refine ⟨_, rfl, rfl, Collection.pair_distinct "A" "B" rfl rfl (by decide), ?_⟩
  rintro ⟨-, hsome⟩
  obtain ⟨data', hdata', honly⟩ := hsome 2 _ rfl
  cases hdata'
  have hmark : some (Value.string "") ≠ none := Option.some_ne_none _
  have hchanged := (honly bob.uid.name hmark).2
  exact absurd (Value.string.inj (Option.some.inj hchanged)) (by decide)

end VoisinMalin
