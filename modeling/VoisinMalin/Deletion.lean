import VoisinMalin.Operation

/-! The two ways to delete an ad. `delButtonPressed` looks the ad up by its title and deletes every
document of the answer, so it removes exactly the displayed ad if and only if no other document has
that title. The swipe on a row of Home deletes a document under a new ID, so it removes nothing. -/

namespace VoisinMalin

open EventMachine World

variable {Double : Type}

/-- `delButtonPressed` as an operation: it deletes the documents with the displayed title. -/
def delButtonPressed (w : World Double) (sc : ScreenID) (s : Screen Double)
    (hs : w.screens sc = some s) : Operation w where
  event := .delButtonPressed sc
  query := ⟨s.demoAd.title, none⟩
  callback := .delButtonPressed sc
  write := .delete
  completion := .annonceSuprimee sc
  update := fun _ => none
  asks := by simp [step, hs]
  answers := fun _ _ _ _ => rfl
  addresses := fun _ => rfl
  updates := fun _ _ => rfl

/-- `after` is `before` without the document of `ad`, and every document of another owner is
still there. -/
def RemovesOnly (ad : DefaultAds Double) (before after : Collection) : Prop :=
  (∃ id data, before.lookup id = some data ∧
    data K.documentID = some (.string ad.documentID) ∧ after = before.erase id) ∧
  ∀ id data, before.lookup id = some data →
    data K.mailField ≠ some (.string ad.mail) → after.lookup id = some data

section Pressed

variable {w u : World Double} {sc : ScreenID} {s : Screen Double} {es : List (Event Double)}

theorem deleted_lookup (hs : w.screens sc = some s) (hidle : w.pending = [])
    (hrun : run step w (.delButtonPressed sc :: es) = some u)
    (hes : ∀ e ∈ es, e.progresses = true) (hdone : u.pending = []) (id : DocID) (data : Fields)
    (hdata : w.ads.lookup id = some data) :
    u.ads.lookup id =
      if whereField K.titleField s.demoAd.title data = true then none else some data := by
  have h := (delButtonPressed w sc s hs).finished hidle hrun hes hdone id
  rw [h, hdata]
  simp [delButtonPressed, Query.selects]

/-- Where only the displayed ad has its title, it alone is removed. -/
theorem pressed_removesOnly {target : DocID} {shown : Fields} (hs : w.screens sc = some s)
    (htarget : w.ads.lookup target = some shown) (hshows : Shows shown s.demoAd)
    (hidle : w.pending = []) (hrun : run step w (.delButtonPressed sc :: es) = some u)
    (hes : ∀ e ∈ es, e.progresses = true) (hdone : u.pending = [])
    (honly : ∀ id data, w.ads.lookup id = some data →
      data K.titleField = some (.string s.demoAd.title) → id = target) :
    RemovesOnly s.demoAd w.ads u.ads := by
  have hlookup := deleted_lookup hs hidle hrun hes hdone
  have hfinished := (delButtonPressed w sc s hs).finished hidle hrun hes hdone
  have hother : ∀ i d, w.ads.lookup i = some d → i ≠ target → u.ads.lookup i = some d := by
    intro i d hd hi
    rw [hlookup i d hd, if_neg]
    exact fun htitle => hi (honly i d hd (whereField_iff.mp htitle))
  refine ⟨⟨target, shown, htarget, hshows.documentID, ?_⟩, ?_⟩
  · apply Finmap.ext_lookup
    intro i
    by_cases hi : i = target
    · subst hi
      rw [hlookup i shown htarget, if_pos (whereField_iff.mpr hshows.title),
        Finmap.lookup_erase]
    · rw [Finmap.lookup_erase_ne hi]
      cases hd : w.ads.lookup i with
      | none => simp [hfinished i, hd]
      | some d => exact hother i d hd hi
  · intro i d hd hmail
    refine hother i d hd fun hi => ?_
    subst hi
    rw [htarget] at hd
    cases hd
    exact hmail hshows.mail

/-- A press of the delete button, followed to its last acknowledgement, removes the displayed ad and
nothing else exactly when every document with the displayed title is that ad. -/
theorem delButton_removesOnly_iff (hs : w.screens sc = some s)
    (hdistinct : DistinctDocumentIDs w.ads)
    (hshown : ∃ id data, w.ads.lookup id = some data ∧ Shows data s.demoAd)
    (hidle : w.pending = []) (hrun : run step w (.delButtonPressed sc :: es) = some u)
    (hes : ∀ e ∈ es, e.progresses = true) (hdone : u.pending = []) :
    RemovesOnly s.demoAd w.ads u.ads ↔
      ∀ id data, w.ads.lookup id = some data →
        data K.titleField = some (.string s.demoAd.title) →
        data K.documentID = some (.string s.demoAd.documentID) := by
  constructor
  · rintro ⟨⟨id, data, hid, hdocument, hafter⟩, -⟩ i d hd htitle
    by_cases hi : i = id
    · subst hi
      rw [hid] at hd
      cases hd
      exact hdocument
    · have hgone := deleted_lookup hs hidle hrun hes hdone i d hd
      rw [if_pos (whereField_iff.mpr htitle), hafter, Finmap.lookup_erase_ne hi, hd] at hgone
      contradiction
  · intro h
    obtain ⟨target, shown, htarget, hshows⟩ := hshown
    refine pressed_removesOnly hs htarget hshows hidle hrun hes hdone fun i d hd htitle => ?_
    exact hdistinct i target d shown _ hd htarget (h i d hd htitle) hshows.documentID

end Pressed

/-- `swiped` and `pressed`, the collections after the swipe on a row of Home and after the delete
button for its ad, are both `before` without the document of the ad. -/
def DeletionsAgree (ad : DefaultAds Double) (before swiped pressed : Collection) : Prop :=
  swiped = pressed ∧ ∃ id data, before.lookup id = some data ∧
    data K.documentID = some (.string ad.documentID) ∧ swiped = before.erase id

section Swiped

variable {w u v : World Double} {sc : ScreenID} {s : Screen Double} {dev : DeviceID} {new : DocID}
  {e : Event Double} {es fs : List (Event Double)}

/-- Where a swipe on a row of Home stands: the document `new` that it deletes is not in the
collection. -/
structure Swiping (w : World Double) (dev : DeviceID) (new : DocID) (u : World Double) : Prop where
  ads : u.ads = w.ads
  tasks : ∀ t ∈ u.pending, t = .write (.delete new) (.homeCommit dev) ∨
    ∃ ok, t = .ack ok (.homeCommit dev)

theorem delete_missing {ads ads' : Collection} (hnew : new ∉ ads)
    (h : (Write.delete new).apply ads = some ads') : ads' = ads := by
  obtain ⟨data, hdata, hads⟩ := Write.lookup_apply h
  cases hdata
  apply Finmap.ext_lookup
  intro i
  have hlookup := hads i
  split at hlookup
  · rename_i hi
    subst hi
    exact hlookup.trans (Finmap.lookup_eq_none.mpr hnew).symm
  · exact hlookup

theorem step_swiping (hnew : new ∉ w.ads) (hu : Swiping w dev new u) (he : e.progresses = true)
    (h : step u e = some v) : Swiping w dev new v := by
  have heffect := step_effect h
  cases e with
  | evaluate q k ids =>
    rcases hu.tasks _ (heffect.taken _ rfl) with htask | ⟨ok, htask⟩ <;> contradiction
  | apply wr c =>
    obtain ⟨hmem, hcases⟩ := step_apply h
    obtain htask | ⟨ok, htask⟩ := hu.tasks _ hmem
    swap
    · contradiction
    obtain ⟨rfl, rfl⟩ := Task.write.inj htask
    rcases hcases with ⟨ads, happly, rfl⟩ | ⟨happly, rfl⟩
    · refine ⟨delete_missing hnew (hu.ads ▸ happly) , fun t ht => ?_⟩
      rcases List.mem_append.mp ht with ht | ht
      · exact hu.tasks t (List.mem_of_mem_erase ht)
      · exact Or.inr ⟨true, List.mem_singleton.mp ht⟩
    · contradiction
  | deliver t =>
    rcases hu.tasks _ (heffect.taken _ rfl) with htask | ⟨ok, htask⟩
    · subst htask
      contradiction
    · subst htask
      refine ⟨(heffect.ads fun _ _ => by simp).trans hu.ads, fun t ht => ?_⟩
      rcases mem_step_pending h ht with hold | hissued
      · exact hu.tasks t hold
      · simp [issued] at hissued
  | _ => simp [Event.progresses] at he

/-- A swipe on a row of Home deletes a document that does not exist: the collection stays. -/
theorem swiped_keeps (hdrawn : ∀ id ∈ w.ads, id ∈ w.drawn) (hidle : w.pending = [])
    (hrun : run step w (.homeCommit dev new :: es) = some u)
    (hes : ∀ e ∈ es, e.progresses = true) : u.ads = w.ads := by
  obtain ⟨x, hx, hrest⟩ := run_cons.mp hrun
  simp only [step] at hx
  split at hx
  · contradiction
  · rename_i hnew
    cases hx
    have hmissing : new ∉ w.ads := fun hmem => hnew (hdrawn new hmem)
    have hstart : Swiping w dev new ({ w with drawn := insert new w.drawn }.issue
        [.write (.delete new) (.homeCommit dev)]) :=
      ⟨rfl, fun t ht => Or.inl (by simpa [hidle] using ht)⟩
    exact (run_preserves_of (A := fun e => e.progresses = true)
      (fun s e t hs he => step_swiping hmissing hs he) hstart hes hrest).ads

/-- With distinct titles the delete button removes the ad of a row of Home, and the swipe on the row
removes nothing. -/
theorem deletions_disagree (hs : w.screens sc = some s) (hdistinct : DistinctTitles w.ads)
    (hshown : ∃ id data, w.ads.lookup id = some data ∧ Shows data s.demoAd)
    (hdrawn : ∀ id ∈ w.ads, id ∈ w.drawn) (hidle : w.pending = [])
    (hswipe : run step w (.homeCommit dev new :: es) = some u)
    (hes : ∀ e ∈ es, e.progresses = true)
    (hpress : run step w (.delButtonPressed sc :: fs) = some v)
    (hfs : ∀ e ∈ fs, e.progresses = true) (hdone : v.pending = []) :
    u.ads = w.ads ∧ RemovesOnly s.demoAd w.ads v.ads ∧
      ¬DeletionsAgree s.demoAd w.ads u.ads v.ads := by
  have hkeeps := swiped_keeps hdrawn hidle hswipe hes
  obtain ⟨target, shown, htarget, hshows⟩ := hshown
  refine ⟨hkeeps, pressed_removesOnly hs htarget hshows hidle hpress hfs hdone ?_, ?_⟩
  · exact fun i d hd htitle => hdistinct i target d shown _ hd htarget htitle hshows.title
  · rintro ⟨-, id, data, hdata, -, herased⟩
    have hgone : u.ads.lookup id = none := by rw [herased, Finmap.lookup_erase]
    rw [hkeeps, hdata] at hgone
    contradiction

end Swiped

/-- The detail screen of an ad of Alice, when the collection also has an ad of Bob. -/
def twoNeighbours (aliceTitle bobTitle : String) : World Nat where
  ads := Collection.pair (.sample aliceTitle "A" alice.mail) (.sample bobTitle "B" bob.mail)
  session := fun _ => some alice
  screens := fun _ => some ⟨0, (AdData.sample aliceTitle "A" alice.mail).toAd 0, none⟩
  pending := []
  drawn := {1, 2}

theorem twoNeighbours_distinct (aliceTitle bobTitle : String) :
    DistinctDocumentIDs (twoNeighbours aliceTitle bobTitle).ads :=
  Collection.pair_distinct "A" "B" rfl rfl (by decide)

/-- The press on that screen and what follows when the answer has the documents `ids`. -/
def deletion (ids : List DocID) : List (Event Nat) :=
  .delButtonPressed 0 :: .evaluate ⟨"Velo", none⟩ (.delButtonPressed 0) ids ::
    .deliver (.answer ids (.delButtonPressed 0)) ::
    (ids.map fun id => .apply (.delete id) (.annonceSuprimee 0)) ++
    ids.map fun _ => .deliver (.ack true (.annonceSuprimee 0))

/-- With an ad of another title beside it, Alice's ad alone is deleted. -/
theorem delButton_removesOnly_velo : ∃ u,
    run step (twoNeighbours "Velo" "Table") (deletion [1]) = some u ∧
    RemovesOnly ((AdData.sample "Velo" "A" alice.mail).toAd 0)
      (twoNeighbours "Velo" "Table").ads u.ads := by
  obtain ⟨u, hrun, hdone⟩ : ∃ u, run step (twoNeighbours "Velo" "Table") (deletion [1]) = some u ∧
      u.pending = [] := ⟨_, rfl, rfl⟩
  refine ⟨u, hrun, (delButton_removesOnly_iff rfl (twoNeighbours_distinct _ _)
    ⟨1, _, rfl, AdData.fields_shows _ 0⟩ rfl hrun (by decide) hdone).mpr ?_⟩
  intro id data hdata htitle
  rcases Collection.pair_cases hdata with rfl | rfl
  · rfl
  · exact absurd (Value.string.inj (Option.some.inj htitle)) (by decide)

/-- With two ads of one title, the deletion of Alice's ad takes Bob's with it. -/
theorem delButton_removes_neighbour : ∃ u,
    run step (twoNeighbours "Velo" "Velo") (deletion [2, 1]) = some u ∧ u.pending = [] ∧
    DistinctDocumentIDs (twoNeighbours "Velo" "Velo").ads ∧
    ¬RemovesOnly ((AdData.sample "Velo" "A" alice.mail).toAd 0)
      (twoNeighbours "Velo" "Velo").ads u.ads := by
  refine ⟨_, rfl, rfl, twoNeighbours_distinct _ _, ?_⟩
  rintro ⟨-, hothers⟩
  have hmail : (AdData.sample "Velo" "B" bob.mail).fields K.mailField ≠
      some (.string alice.mail) := fun h =>
    absurd (Value.string.inj (Option.some.inj h)) (by decide)
  have hbob := hothers 2 _ rfl hmail
  contradiction

/-- The swipe on a row of Home, for which Firestore draws the document ID `id`. -/
def homeSwipe (id : DocID) : List (Event Nat) :=
  [.homeCommit 0 id, .apply (.delete id) (.homeCommit 0), .deliver (.ack true (.homeCommit 0))]

/-- The swipe on the row of Alice's ad leaves it there, the delete button removes it. -/
theorem deletions_disagree_velo : ∃ u v,
    run step (twoNeighbours "Velo" "Table") (homeSwipe 3) = some u ∧
    run step (twoNeighbours "Velo" "Table") (deletion [1]) = some v ∧
    u.ads = (twoNeighbours "Velo" "Table").ads ∧
    ¬DeletionsAgree ((AdData.sample "Velo" "A" alice.mail).toAd 0)
      (twoNeighbours "Velo" "Table").ads u.ads v.ads := by
  obtain ⟨u, hswipe⟩ : ∃ u, run step (twoNeighbours "Velo" "Table") (homeSwipe 3) = some u :=
    ⟨_, rfl⟩
  obtain ⟨v, hpress, hdone⟩ : ∃ v, run step (twoNeighbours "Velo" "Table") (deletion [1]) = some v ∧
      v.pending = [] := ⟨_, rfl, rfl⟩
  obtain ⟨hkeeps, -, hdisagree⟩ := deletions_disagree rfl
    (Collection.pair_distinct "Velo" "Table" rfl rfl (by decide))
    ⟨1, _, rfl, AdData.fields_shows _ 0⟩ (by decide) rfl hswipe (by decide) hpress (by decide) hdone
  exact ⟨u, v, hswipe, hpress, hkeeps, hdisagree⟩

/-- After the swipe Alice's ad is still in the collection. -/
theorem homeSwipe_keeps_velo : ∃ u v,
    run step (twoNeighbours "Velo" "Table") (homeSwipe 3) = some u ∧ u.pending = [] ∧
    run step (twoNeighbours "Velo" "Table") (deletion [1]) = some v ∧ v.pending = [] ∧
    DistinctTitles (twoNeighbours "Velo" "Table").ads ∧
    ¬DeletionsAgree ((AdData.sample "Velo" "A" alice.mail).toAd 0)
      (twoNeighbours "Velo" "Table").ads u.ads v.ads := by
  refine ⟨_, _, rfl, rfl, rfl, rfl, Collection.pair_distinct "Velo" "Table" rfl rfl (by decide), ?_⟩
  rintro ⟨hsame, -⟩
  have hlookup := congrArg (Finmap.lookup 1) hsame
  contradiction

end VoisinMalin
