import VoisinMalin.Resync
import VoisinMalin.Rows

/-! The swipes of FavoriteListController. A swipe has Firestore remove the user's mark, and the table
is reloaded before and after the removal, but nothing takes the ad out of `privateAds`. So the list
follows its removals if and only if Firestore applies none of them. -/

namespace VoisinMalin

open EventMachine World ListState Collect

variable {Double Location : Type}

/-- FavoriteListController on its device, among the clients of the collection. -/
structure Favorites (Double Location : Type) where
  world : World Double
  device : DeviceID
  list : ListState Double Location

inductive SwipeEvent (Double : Type) where
  | commit (row : Nat)
  | world (e : Event Double)

/-- The events by which what is under way goes on or fails. -/
def Event.settles : Event Double → Bool
  | .evaluate _ _ _ | .apply _ _ | .fail _ | .deliver _ => true
  | _ => false

namespace Favorites

/-- The completion of a swipe's write reloads the table when Firestore has applied the write. -/
def completed (s : Favorites Double Location) : Event Double → ListState Double Location
  | .deliver (.ack true (.commit dev)) => if dev = s.device then s.list.reloadData else s.list
  | _ => s.list

def step (s : Favorites Double Location) : SwipeEvent Double → Option (Favorites Double Location)
  | .commit row =>
    if row < s.list.table.length then
      match s.list.ad row with
      | .error _ => none
      | .ok favoriteAd => (s.world.step (.commit s.device favoriteAd)).map fun w =>
        { s with world := w, list := s.list.reloadData }
    else none
  | .world e =>
    if e.settles then (s.world.step e).map fun w => { s with world := w, list := s.completed e }
    else none

/-- Every ad of the list has a document with the user's mark. -/
structure Loaded (s : Favorites Double Location) (user : User) : Prop where
  session : s.world.session s.device = some user
  rows : ∀ ad ∈ s.list.privateAds, Carries s.world.ads ad user.uid

end Favorites

/-- The document that an event removes a mark from. -/
def SwipeEvent.removes : SwipeEvent Double → Option DocID
  | .world (.apply wr _) => some wr.id
  | _ => none

section Load

variable {data : Fields} {docs : List Fields} {ad : DefaultAds Double} {user : User}
  {s : Favorites Double Location} {pl : Platform Double Location}

theorem texts?_eq_some {t : Texts} : texts? data = some t ↔
    data.string? K.titleField = some t.title ∧
    data.string? K.descriptionField = some t.description ∧
    data.string? K.priceField = some t.price ∧ data.string? K.phoneField = some t.phone ∧
    data.string? K.mailField = some t.mail ∧ data.string? K.locationField = some t.location ∧
    data.string? K.imageAds = some t.image := by
  simp only [texts?, Option.bind_eq_bind, Option.bind_eq_some_iff, Option.pure_def,
    Option.some.injEq]
  constructor
  · rintro ⟨title, h1, description, h2, price, h3, phone, h4, mail, h5, location, h6, image, h7, rfl⟩
    exact ⟨h1, h2, h3, h4, h5, h6, h7⟩
  · rintro ⟨h1, h2, h3, h4, h5, h6, h7⟩
    exact ⟨_, h1, _, h2, _, h3, _, h4, _, h5, _, h6, _, h7, rfl⟩

/-- A document shows the ad that a loader reads from it. -/
theorem readAd_shows {flag : Value → Option Bool} (h : readAd flag data = some ad.unplaced) :
    Shows data ad := by
  obtain ⟨t, id, lat, long, sortD, isFav, ht, hid, hlat, hlong, -, -, had⟩ := readAd_some.mp h
  obtain ⟨htitle, hdescription, hprice, hphone, hmail, hlocation, himage⟩ := texts?_eq_some.mp ht
  cases ad
  simp only [DefaultAds.unplaced, DefaultAds.mk.injEq] at had
  obtain ⟨rfl, rfl, rfl, rfl, rfl, rfl, rfl, rfl, rfl, rfl, -, -⟩ := had
  constructor <;> rw [← Fields.string?_eq_some] <;> assumption

/-- What `loadData` makes of documents with the user's mark is a loaded list. -/
theorem loaded_of_loadData (hsession : s.world.session s.device = some user)
    (hdocs : ∀ data ∈ docs, Marked user.uid data ∧ ∃ id, s.world.ads.lookup id = some data)
    (h : FavoriteListController.loadData pl docs [] = .ok s.list.privateAds) : s.Loaded user := by
  refine ⟨hsession, fun ad had => ?_⟩
  have hkept := (collect_perm (sortByTitle_perm pl) h).mem_iff.mp had
  rw [List.nil_append, List.mem_filterMap] at hkept
  obtain ⟨data, hdata, hnew⟩ := hkept
  have hread : readAd Value.asBool data = some ad.unplaced := by
    rw [← (favorite_reads pl).kept_eq, hnew]
    rfl
  obtain ⟨hmarked, id, hid⟩ := hdocs data hdata
  exact ⟨id, data, hid, readAd_shows hread, hmarked⟩

end Load

/-- The document `id` is that of an ad of the list. -/
def Favorites.Listed (s : Favorites Double Location) (id : DocID) : Prop :=
  ∃ ad ∈ s.list.privateAds, ∃ data, s.world.ads.lookup id = some data ∧ Shows data ad

/-- What the swipes on the rows of `s` have under way. -/
inductive Favorites.SwipeTask (s : Favorites Double Location) (user : User) : Task → Prop
  | query {ad : DefaultAds Double} (mem : ad ∈ s.list.privateAds) :
      s.SwipeTask user (.query ⟨ad.title, none⟩ (.commit s.device))
  | answer {ids : List DocID} (listed : ∀ id ∈ ids, s.Listed id) :
      s.SwipeTask user (.answer ids (.commit s.device))
  | write {id : DocID} (listed : s.Listed id) :
      s.SwipeTask user (.write (.updateData id user.uid) (.commit s.device))
  | ack (ok : Bool) : s.SwipeTask user (.ack ok (.commit s.device))

/-- Where the swipes on the rows of `s` stand, when Firestore has removed the marks of `removed`. -/
structure Favorites.Swiped (s : Favorites Double Location) (user : User) (removed : List DocID)
    (t : Favorites Double Location) : Prop where
  device : t.device = s.device
  rows : t.list.privateAds = s.list.privateAds
  session : t.world.session = s.world.session
  docs : ∀ id, t.world.ads.lookup id = (s.world.ads.lookup id).map fun data =>
    if id ∈ removed then Function.update data user.uid.name none else data
  removed : ∀ id ∈ removed, s.Listed id
  tasks : ∀ task ∈ t.world.pending, s.SwipeTask user task

open Favorites

section Step

variable {s t u : Favorites Double Location} {w : World Double} {user : User}
  {removed : List DocID} {e : Event Double} {task : Task}

theorem completed_rows (s : Favorites Double Location) (e : Event Double) :
    (s.completed e).privateAds = s.list.privateAds := by
  unfold Favorites.completed
  split
  · split <;> rfl
  · rfl

theorem settles_session (he : e.settles = true) (h : World.step t.world e = some w) :
    w.session = t.world.session := by
  rw [(step_keeps h).session]
  cases e with
  | signIn dev user | signOut dev => contradiction
  | _ => rfl

theorem Favorites.Swiped.schema (ht : s.Swiped user removed t) {id : DocID} {data : Fields}
    (h : t.world.ads.lookup id = some data) : ∃ before, s.world.ads.lookup id = some before ∧
      ∀ field ∈ schemaFields, data field = before field := by
  rw [ht.docs] at h
  obtain ⟨before, hbefore, rfl⟩ := Option.map_eq_some_iff.mp h
  refine ⟨before, hbefore, fun field hfield => ?_⟩
  split
  · exact update_mark hfield before user.uid none
  · rfl

/-- The title query of a swipe finds documents of the list only. -/
theorem Favorites.Swiped.found (hloaded : s.Loaded user) (htitles : DistinctTitles s.world.ads)
    (ht : s.Swiped user removed t) {ad : DefaultAds Double} (had : ad ∈ s.list.privateAds)
    {ids : List DocID} (hids : ids.toFinset = (Query.mk ad.title none).ids t.world.ads) :
    ∀ id ∈ ids, s.Listed id := by
  intro id hid
  obtain ⟨data, hdata, hselects⟩ := Query.mem_ids.mp (hids ▸ List.mem_toFinset.mpr hid)
  obtain ⟨before, hbefore, hsame⟩ := ht.schema hdata
  obtain ⟨own, shown, hown, hshows, -⟩ := hloaded.rows ad had
  have htitle : before K.titleField = some (.string ad.title) := by
    rw [← hsame _ (by decide)]
    simpa [Query.selects, whereField_iff] using hselects
  have hsameID := htitles id own before shown _ hbefore hown htitle hshows.title
  exact ⟨ad, had, shown, hsameID ▸ hown, hshows⟩

/-- What an event of Firestore issues belongs to the swipes, too. -/
theorem Favorites.Swiped.issued (hloaded : s.Loaded user) (htitles : DistinctTitles s.world.ads)
    (ht : s.Swiped user removed t) (he : e.settles = true) (h : World.step t.world e = some w)
    (htask : task ∈ t.world.issued e) : s.SwipeTask user task := by
  have htaken := (step_effect h).taken
  cases mem_issued htask with
  | evaluate q k ids =>
    simp only [World.step] at h
    split at h
    · rename_i hids
      cases ht.tasks _ (htaken _ rfl) with
      | query had => exact .answer (ht.found hloaded htitles had hids.2)
    · contradiction
  | apply wr c | fail wr c =>
    cases ht.tasks _ (htaken _ rfl) with
    | write listed => exact .ack _
  | misEnFavoris | favorisRemoved | annonceSuprimee => cases ht.tasks _ (htaken _ rfl)
  | swiped mem =>
    cases ht.tasks _ (htaken _ rfl) with
    | answer listed =>
      rw [ht.session, hloaded.session]
      exact .write (listed _ mem)
  | _ => contradiction

/-- The application of a write removes the user's mark from a document of the list. -/
theorem Favorites.Swiped.applied {wr : Write} {c : Completion} (ht : s.Swiped user removed t)
    (h : World.step t.world (.apply wr c) = some w) : s.Listed wr.id ∧
      ∀ id, w.ads.lookup id = (s.world.ads.lookup id).map fun data =>
        if id ∈ removed ++ [wr.id] then Function.update data user.uid.name none else data := by
  obtain ⟨hmem, hcases⟩ := step_apply h
  cases ht.tasks _ hmem with
  | @write removedID listed =>
    refine ⟨listed, fun id => ?_⟩
    obtain ⟨ad, -, before, hbefore, -⟩ := listed
    have hdata := ht.docs removedID
    rw [hbefore, Option.map_some] at hdata
    obtain ⟨ads, happly, rfl⟩ | ⟨hrejected, -⟩ := hcases
    · obtain ⟨after, hafter, hads⟩ := Write.lookup_apply happly
      simp only [Write.id, hdata, Write.document, Option.map_some, Option.some.injEq] at hafter
      subst hafter
      have hlookup := hads id
      split at hlookup
      · rename_i hid
        rw [hlookup, hid, Write.id, hbefore, Option.map_some]
        by_cases hagain : removedID ∈ removed <;> simp [hagain]
      · rename_i hid
        rw [hlookup, ht.docs id]
        simp [hid]
    · simp [Write.apply, Write.id, hdata, Write.document] at hrejected

theorem step_swiped (hloaded : s.Loaded user) (htitles : DistinctTitles s.world.ads)
    (ht : s.Swiped user removed t) {e : SwipeEvent Double} (h : Favorites.step t e = some u) :
    s.Swiped user (removed ++ e.removes.toList) u := by
  cases e with
  | commit row =>
    simp only [Favorites.step] at h
    split at h
    · split at h
      · contradiction
      · rename_i favoriteAd hrow
        obtain ⟨w, hw, rfl⟩ := Option.map_eq_some_iff.mp h
        cases hw
        have had : favoriteAd ∈ s.list.privateAds := by
          rw [← ht.rows]
          exact List.mem_of_getElem? (ad_eq_ok.mp hrow)
        simp only [SwipeEvent.removes, Option.toList_none, List.append_nil]
        refine ⟨ht.device, ht.rows, ht.session, ht.docs, ht.removed, fun task htask => ?_⟩
        rcases List.mem_append.mp htask with htask | htask
        · exact ht.tasks task htask
        · rw [List.mem_singleton.mp htask, ht.device]
          exact .query had
    · contradiction
  | world e =>
    simp only [Favorites.step] at h
    split at h
    · rename_i he
      obtain ⟨w, hw, rfl⟩ := Option.map_eq_some_iff.mp h
      have hsession := (settles_session he hw).trans ht.session
      have hrows := (completed_rows t e).trans ht.rows
      have htasks : ∀ task ∈ w.pending, s.SwipeTask user task := by
        intro task htask
        rcases mem_step_pending hw htask with hold | hissued
        · exact ht.tasks task hold
        · exact ht.issued hloaded htitles he hw hissued
      by_cases hwrite : ∃ wr c, e = .apply wr c
      · obtain ⟨wr, c, rfl⟩ := hwrite
        obtain ⟨hlisted, hdocs⟩ := ht.applied hw
        refine ⟨ht.device, hrows, hsession, hdocs, fun id hid => ?_, htasks⟩
        rcases List.mem_append.mp hid with hid | hid
        · exact ht.removed id hid
        · exact List.mem_singleton.mp hid ▸ hlisted
      · have hnone : (SwipeEvent.world e).removes = none := by
          cases e with
          | apply wr c => exact absurd ⟨wr, c, rfl⟩ hwrite
          | _ => rfl
        have hads := (step_effect hw).ads fun wr c hwr => hwrite ⟨wr, c, hwr⟩
        rw [hnone, Option.toList_none, List.append_nil]
        exact ⟨ht.device, hrows, hsession, fun id => hads ▸ ht.docs id, ht.removed, htasks⟩
    · contradiction

theorem run_swiped (hloaded : s.Loaded user) (htitles : DistinctTitles s.world.ads)
    (hidle : s.world.pending = []) {es : List (SwipeEvent Double)}
    (hrun : run Favorites.step s es = some t) :
    s.Swiped user (es.filterMap SwipeEvent.removes) t := by
  have hstart : s.Swiped user (([] : List (SwipeEvent Double)).filterMap SwipeEvent.removes) s := by
    refine ⟨rfl, rfl, rfl, fun id => by simp, by simp, fun task htask => ?_⟩
    simp [hidle] at htask
  refine run_history (P := fun fs => s.Swiped user (fs.filterMap SwipeEvent.removes))
    (fun fs v e t hv h => ?_) hstart hrun
  have hstep := step_swiped hloaded htitles hv h
  rw [List.filterMap_append]
  cases hremoves : e.removes <;> simpa [hremoves] using hstep

end Step

/-- The list has the ads that it had before and that still have the user's mark. -/
def FollowsSwipes (s t : Favorites Double Location) (user : User) : Prop :=
  ∀ ad, ad ∈ t.list.privateAds ↔
    ad ∈ s.list.privateAds ∧ Carries t.world.ads ad user.uid

section Run

variable {s t : Favorites Double Location} {user : User} {removed : List DocID}
  {es : List (SwipeEvent Double)}

theorem Favorites.Swiped.titles (htitles : DistinctTitles s.world.ads)
    (ht : s.Swiped user removed t) : DistinctTitles t.world.ads := by
  intro i j di dj title hi hj hdi hdj
  obtain ⟨bi, hbi, hsamei⟩ := ht.schema hi
  obtain ⟨bj, hbj, hsamej⟩ := ht.schema hj
  rw [hsamei _ (by decide)] at hdi
  rw [hsamej _ (by decide)] at hdj
  exact htitles i j bi bj title hbi hbj hdi hdj

/-- An ad of the list has lost its mark exactly when its document is among those removed. -/
theorem Favorites.Swiped.carries {ad : DefaultAds Double} {id : DocID} {data : Fields}
    (htitles : DistinctTitles s.world.ads) (ht : s.Swiped user removed t)
    (hdata : s.world.ads.lookup id = some data) (hshows : Shows data ad)
    (hmarked : Marked user.uid data) : Carries t.world.ads ad user.uid ↔ id ∉ removed := by
  have hlookup := ht.docs id
  rw [hdata, Option.map_some] at hlookup
  by_cases hremoved : id ∈ removed
  · rw [if_pos hremoved] at hlookup
    rw [carries_iff (ht.titles htitles) hlookup (hshows.update_mark user.uid none)]
    simp [hremoved, Marked]
  · rw [if_neg hremoved] at hlookup
    rw [carries_iff (ht.titles htitles) hlookup hshows]
    exact ⟨fun _ => hremoved, fun _ => hmarked⟩

/-- The list follows the swipes as long as no document has lost its mark. -/
theorem Favorites.Swiped.follows_iff (hloaded : s.Loaded user)
    (htitles : DistinctTitles s.world.ads) (ht : s.Swiped user removed t) :
    FollowsSwipes s t user ↔ removed = [] := by
  rw [List.eq_nil_iff_forall_not_mem]
  constructor
  · intro h id hid
    obtain ⟨ad, had, data, hdata, hshows⟩ := ht.removed id hid
    obtain ⟨own, shown, hown, hownShows, hmarked⟩ := hloaded.rows ad had
    have hsame := htitles id own data shown _ hdata hown hshows.title hownShows.title
    rw [← ht.rows] at had
    have hstill := ((h ad).mp had).2
    rw [ht.carries htitles hown hownShows hmarked, ← hsame] at hstill
    exact hstill hid
  · intro h ad
    rw [ht.rows, iff_self_and]
    intro had
    obtain ⟨id, data, hdata, hshows, hmarked⟩ := hloaded.rows ad had
    exact (ht.carries htitles hdata hshows hmarked).mpr (h id)

/-- After any run of swipes on a loaded list whose titles are distinct, the list has the ads that
still carry the user's mark exactly when Firestore has applied none of the removals. -/
theorem followsSwipes_iff (hloaded : s.Loaded user) (htitles : DistinctTitles s.world.ads)
    (hidle : s.world.pending = []) (hrun : run Favorites.step s es = some t) :
    FollowsSwipes s t user ↔ ∀ wr c, .world (.apply wr c) ∉ es := by
  rw [(run_swiped hloaded htitles hidle hrun).follows_iff hloaded htitles,
    List.filterMap_eq_nil_iff]
  constructor
  · intro h wr c hmem
    have hnone := h _ hmem
    contradiction
  · intro h e he
    cases e with
    | commit row => rfl
    | world e =>
      cases e with
      | apply wr c => exact absurd he (h wr c)
      | _ => rfl

end Run

/-- Bob's list, with the ad of Alice that he has among his favourites. -/
def bobsList : Favorites Nat Unit where
  world := bobsFavourite
  device := 0
  list := ListState.reloadData { ListState.fresh with
    privateAds := [(AdData.sample "Velo" "A" alice.mail).toAd 0] }

theorem bobsList_loaded : bobsList.Loaded bob := by
  refine ⟨rfl, fun ad had => ?_⟩
  rw [List.mem_singleton.mp had]
  exact ⟨1, _, rfl, (AdData.fields_shows _ 0).update_mark bob.uid _, rfl⟩

theorem bobsList_titles : DistinctTitles bobsList.world.ads := distinctField_single _ _ _

def bobSwipesRow (settled : List (Event Nat)) : List (SwipeEvent Nat) :=
  [.commit 0, .world (.evaluate ⟨"Velo", none⟩ (.commit 0) [1]),
    .world (.deliver (.answer [1] (.commit 0)))] ++ settled.map .world

/-- When the removal fails, the list follows: the ad keeps its mark and its row. -/
theorem followsSwipes_failed : ∃ t,
    run Favorites.step bobsList (bobSwipesRow [.fail (.write (.updateData 1 bob.uid) (.commit 0)),
      .deliver (.ack false (.commit 0))]) = some t ∧ t.world.pending = [] ∧
    FollowsSwipes bobsList t bob := by
  obtain ⟨t, hrun, hdone⟩ : ∃ t,
      run Favorites.step bobsList (bobSwipesRow [.fail (.write (.updateData 1 bob.uid) (.commit 0)),
        .deliver (.ack false (.commit 0))]) = some t ∧ t.world.pending = [] := ⟨_, rfl, rfl⟩
  refine ⟨t, hrun, hdone, (followsSwipes_iff bobsList_loaded bobsList_titles rfl hrun).mpr ?_⟩
  simp [bobSwipesRow]

/-- When it succeeds, the ad has lost its mark and still has its row. -/
theorem followsSwipes_removed : ∃ t,
    run Favorites.step bobsList (bobSwipesRow [.apply (.updateData 1 bob.uid) (.commit 0),
      .deliver (.ack true (.commit 0))]) = some t ∧ t.world.pending = [] ∧
    bobsList.Loaded bob ∧ DistinctTitles bobsList.world.ads ∧ ¬FollowsSwipes bobsList t bob := by
  obtain ⟨t, hrun, hdone⟩ : ∃ t,
      run Favorites.step bobsList (bobSwipesRow [.apply (.updateData 1 bob.uid) (.commit 0),
        .deliver (.ack true (.commit 0))]) = some t ∧ t.world.pending = [] := ⟨_, rfl, rfl⟩
  refine ⟨t, hrun, hdone, bobsList_loaded, bobsList_titles, fun hfollows => ?_⟩
  have hremoved := ((run_swiped bobsList_loaded bobsList_titles rfl hrun).follows_iff
    bobsList_loaded bobsList_titles).mp hfollows
  contradiction

end VoisinMalin
