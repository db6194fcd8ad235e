import VoisinMalin.Clients

/-! The favourite flag of a detail screen. `checkFavorites` sets it when the answer has a document
and never clears it, so what the flag holds is the last of the messages that set or cleared it over
the whole run: after an appearance it tells the mark of the displayed ad if and only if the last
message before agrees with a check that found nothing. -/

namespace VoisinMalin

open EventMachine World

variable {Double : Type}

/-- What the messages of a run last told screen `sc`. -/
def lastTold (sc : ScreenID) (es : List (Event Double)) : Option Bool := es.foldl (flagAfter sc) none

section Step

variable {w u : World Double} {sc : ScreenID} {e : Event Double}

theorem checked_session (w : World Double) (sc : ScreenID) (ids : List DocID) :
    (w.answered ids (.checkFavorites sc)).session = w.session := by
  rw [answered_check]
  split <;> rfl

/-- The only event that sends a check is an appearance of its screen. -/
theorem issued_check {q : Query} (h : .query q (.checkFavorites sc) ∈ w.issued e) :
    ∃ s, w.screens sc = some s ∧
      q = ⟨s.demoAd.title, some (markOrOups (w.session s.device))⟩ := by
  cases mem_issued h with
  | viewDidAppear screen => exact ⟨_, screen, rfl⟩

theorem flagAfter_loads {flag : Option Bool} {s : Screen Double} (hloads : e.loads sc = some s) :
    s.inFavorite = flagAfter sc flag e := by
  cases e with
  | viewDidLoad sc' dev ad =>
    simp only [Event.loads] at hloads
    split at hloads
    · rename_i hsc
      cases hloads
      simp [flagAfter, hsc]
    · contradiction
  | _ => simp [Event.loads] at hloads

end Step

/-- The flag of screen `sc` is what the screen was last told, and the checks that it has sent are
about the displayed ad. -/
structure Followed (sc : ScreenID) (told : Option Bool) (w : World Double) : Prop where
  flag : ∀ s, w.screens sc = some s → s.inFavorite = told
  asked : ∀ q, .query q (.checkFavorites sc) ∈ w.pending →
    ∃ s, w.screens sc = some s ∧ q.title = s.demoAd.title

section Run

variable {w u : World Double} {sc : ScreenID} {told : Option Bool} {e : Event Double}
  {es : List (Event Double)}

theorem followed_start (hnew : w.screens sc = none) (hidle : w.pending = []) :
    Followed sc none w :=
  ⟨fun s hs => by simp [hnew] at hs, fun q hq => by simp [hidle] at hq⟩

theorem Followed.asked_step (hw : Followed sc told w) (h : step w e = some u) {q : Query}
    (hq : .query q (.checkFavorites sc) ∈ u.pending) :
    ∃ s, w.screens sc = some s ∧ q.title = s.demoAd.title := by
  rcases mem_step_pending h hq with hold | hissued
  · exact hw.asked q hold
  · obtain ⟨s, hs, rfl⟩ := issued_check hissued
    exact ⟨s, hs, rfl⟩

theorem step_followed (hw : Followed sc told w) (h : step w e = some u) :
    Followed sc (flagAfter sc told e) u := by
  have hscreens := (step_effect h).screens sc
  cases hloads : e.loads sc with
  | some loaded =>
    rw [hloads, Option.some_or] at hscreens
    refine ⟨fun s hs => ?_, fun q hq => ?_⟩
    · rw [hscreens] at hs
      cases hs
      exact flagAfter_loads hloads
    · obtain ⟨s, hs, -⟩ := hw.asked_step h hq
      rw [(step_effect h).loads sc loaded hloads] at hs
      contradiction
  | none =>
    rw [hloads, Option.none_or] at hscreens
    refine ⟨fun s hs => ?_, fun q hq => ?_⟩
    · rw [hscreens] at hs
      obtain ⟨s', hs', rfl⟩ := Option.map_eq_some_iff.mp hs
      rw [← hw.flag s' hs']
    · obtain ⟨s, hs, htitle⟩ := hw.asked_step h hq
      rw [hs, Option.map_some] at hscreens
      exact ⟨_, hscreens, htitle⟩

theorem run_followed (hw : Followed sc told w) (h : run step w es = some u) :
    Followed sc (es.foldl (flagAfter sc) told) u :=
  run_foldl (fun _ _ _ _ hv hx => step_followed hv hx) hw h

/-- A loaded screen keeps its device and its ad. -/
theorem run_keeps_screen {s : Screen Double} (hs : w.screens sc = some s)
    (h : run step w es = some u) :
    ∃ flag, u.screens sc = some { s with inFavorite := flag } := by
  refine run_preserves (I := fun v : World Double => ∃ flag, v.screens sc = some
    { s with inFavorite := flag }) (fun v e x hv hx => ?_) ⟨s.inFavorite, hs⟩ h
  obtain ⟨flag, hflag⟩ := hv
  obtain ⟨later, hlater⟩ := step_keeps_screen hx hflag
  exact ⟨later, hlater⟩

end Run

/-- The document of `ad` has the mark `key`. -/
def Carries (ads : Collection) (ad : DefaultAds Double) (key : MarkKey) : Prop :=
  ∃ id data, ads.lookup id = some data ∧ Shows data ad ∧ Marked key data

/-- With distinct titles an ad has one document. -/
theorem carries_iff {ads : Collection} {ad : DefaultAds Double} {key : MarkKey} {id : DocID}
    {data : Fields} (hdistinct : DistinctTitles ads) (hdata : ads.lookup id = some data)
    (hshows : Shows data ad) : Carries ads ad key ↔ Marked key data := by
  constructor
  · rintro ⟨i, d, hd, hdshows, hmarked⟩
    have hsame := hdistinct i id d data _ hd hdata hdshows.title hshows.title
    rw [hsame, hdata] at hd
    cases hd
    exact hmarked
  · exact fun hmarked => ⟨id, data, hdata, hshows, hmarked⟩

/-- The flag of screen `sc` tells whether its ad carries the mark of the signed-in user. -/
def InSync (w : World Double) (sc : ScreenID) : Prop :=
  ∃ s user, w.screens sc = some s ∧ w.session s.device = some user ∧
    (s.inFavorite = some true ↔ Carries w.ads s.demoAd user.uid)

theorem inSync_iff {w : World Double} {sc : ScreenID} {s : Screen Double} {user : User}
    (hs : w.screens sc = some s) (hsession : w.session s.device = some user) :
    InSync w sc ↔ (s.inFavorite = some true ↔ Carries w.ads s.demoAd user.uid) := by
  constructor
  · rintro ⟨s', user', hs', hsession', h⟩
    rw [hs] at hs'
    cases hs'
    rw [hsession] at hsession'
    cases hsession'
    exact h
  · exact fun h => ⟨s, user, hs, hsession, h⟩

/-- Screen `sc`, loaded in the course of the run `es`, gets the answer to a check: the query `q` was
evaluated after `es`, the events `mid` followed, and when the answer arrives as the only thing under
way it still is what the collection has. -/
structure Checked (w₀ : World Double) (sc : ScreenID) (es : List (Event Double)) (q : Query)
    (ids : List DocID) (mid : List (Event Double)) (y u : World Double) : Prop where
  new : w₀.screens sc = none
  idle : w₀.pending = []
  reached : run step w₀ (es ++ .evaluate q (.checkFavorites sc) ids :: mid) = some y
  current : ids.toFinset = q.ids y.ads
  quiet : y.pending = [.answer ids (.checkFavorites sc)]
  delivered : step y (.deliver (.answer ids (.checkFavorites sc))) = some u

section Checked

variable {w₀ y u : World Double} {sc : ScreenID} {es mid : List (Event Double)} {q : Query}
  {ids : List DocID} {s : Screen Double} {user : User}

theorem Checked.ads (h : Checked w₀ sc es q ids mid y u) : u.ads = y.ads :=
  (step_effect h.delivered).ads fun _ _ he => by contradiction

theorem Checked.session (h : Checked w₀ sc es q ids mid y u) : u.session = y.session := by
  obtain ⟨v, hv, rfl⟩ := Option.map_eq_some_iff.mp h.delivered
  obtain ⟨-, rfl⟩ := take_eq_some.mp hv
  rw [checked_session]

/-- After the answer, the flag is up when the query found a document or the screen was last told
so. -/
theorem Checked.screen (h : Checked w₀ sc es q ids mid y u) (hs : y.screens sc = some s) :
    ∃ s', u.screens sc = some s' ∧ s'.device = s.device ∧ s'.demoAd = s.demoAd ∧
      (s'.inFavorite = some true ↔ (q.ids y.ads).Nonempty ∨
        lastTold sc (es ++ .evaluate q (.checkFavorites sc) ids :: mid) = some true) := by
  have hflag := (run_followed (followed_start h.new h.idle) h.reached).flag s hs
  have hscreens := (step_effect h.delivered).screens sc
  rw [hs] at hscreens
  refine ⟨_, hscreens, rfl, rfl, ?_⟩
  have hids : ids ≠ [] ↔ (q.ids y.ads).Nonempty := by
    rw [← h.current, List.toFinset_nonempty_iff]
  by_cases hempty : ids = []
  · simp [flagAfter, hempty, hflag, ← hids, lastTold]
  · simp [flagAfter, hempty, ← hids]

/-- The query of the check asks for the displayed title. -/
theorem Checked.title (h : Checked w₀ sc es q ids mid y u) (hs : y.screens sc = some s) :
    q.title = s.demoAd.title := by
  obtain ⟨w, hw, hrest⟩ := run_append.mp h.reached
  obtain ⟨x, hevaluate, -⟩ := run_cons.mp hrest
  have hfollowed := run_followed (followed_start h.new h.idle) hw
  have hpending : .query q (.checkFavorites sc) ∈ w.pending := (step_effect hevaluate).taken _ rfl
  obtain ⟨s', hs', htitle⟩ := hfollowed.asked q hpending
  obtain ⟨flag, hkept⟩ := run_keeps_screen hs' hrest
  rw [hs] at hkept
  cases hkept
  exact htitle

/-- The flag tells the mark of the signed-in user exactly in these two cases: the ad carries it, and
the query found a document or the screen was last told so; or the ad does not, the query found none
and the screen was not last told so. -/
theorem resync_iff (h : Checked w₀ sc es q ids mid y u) (hs : y.screens sc = some s)
    (hsession : y.session s.device = some user) :
    InSync u sc ↔
      (Carries y.ads s.demoAd user.uid → (q.ids y.ads).Nonempty ∨
        lastTold sc (es ++ .evaluate q (.checkFavorites sc) ids :: mid) = some true) ∧
      (¬Carries y.ads s.demoAd user.uid → ¬(q.ids y.ads).Nonempty ∧
        lastTold sc (es ++ .evaluate q (.checkFavorites sc) ids :: mid) ≠ some true) := by
  obtain ⟨s', hs', hdevice, had, hflag⟩ := h.screen hs
  have huser : u.session s'.device = some user := by rw [h.session, hdevice, hsession]
  rw [inSync_iff hs' huser, hflag, had, h.ads]
  by_cases hcarries : Carries y.ads s.demoAd user.uid <;> simp [hcarries, not_or]

/-- When the session is the one of the appearance and the displayed ad is the only one of its
title, the flag is right unless the ad lost a mark that the screen was last told of. -/
theorem resync_same_session (h : Checked w₀ sc es q ids mid y u) (hs : y.screens sc = some s)
    (hsession : y.session s.device = some user) (hmark : q.mark = some user.uid)
    (hdistinct : DistinctTitles y.ads) {id : DocID} {data : Fields}
    (hdata : y.ads.lookup id = some data) (hshows : Shows data s.demoAd) :
    InSync u sc ↔ Marked user.uid data ∨
      lastTold sc (es ++ .evaluate q (.checkFavorites sc) ids :: mid) ≠ some true := by
  obtain ⟨s', hs', hdevice, had, hflag⟩ := h.screen hs
  have huser : u.session s'.device = some user := by rw [h.session, hdevice, hsession]
  have hquery : q = ⟨s.demoAd.title, some user.uid⟩ := by
    rw [← h.title hs, ← hmark]
  have hfound : (q.ids y.ads).Nonempty ↔ Marked user.uid data := by
    constructor
    · rintro ⟨i, hi⟩
      obtain ⟨d, hd, hselects⟩ := Query.mem_ids.mp hi
      rw [hquery, Query.selects_mark] at hselects
      have hsame := hdistinct i id d data _ hd hdata hselects.1 hshows.title
      rw [hsame, hdata] at hd
      cases hd
      exact hselects.2
    · intro hmarked
      refine ⟨id, Query.mem_ids.mpr ⟨data, hdata, ?_⟩⟩
      rw [hquery]
      exact Query.selects_mark.mpr ⟨hshows.title, hmarked⟩
  rw [inSync_iff hs' huser, hflag, had, h.ads, hfound, carries_iff hdistinct hdata hshows]
  tauto

end Checked

/-- An ad of Alice that Bob has among his favourites. -/
def bobsFavourite : World Nat where
  ads := (∅ : Collection).insert 1
    (Function.update (AdData.sample "Velo" "A" alice.mail).fields bob.uid.name (some (.string "")))
  session := fun _ => some bob
  screens := fun _ => none
  pending := []
  drawn := {1}

def bobOpens : List (Event Nat) :=
  [.viewDidLoad 0 0 ((AdData.sample "Velo" "A" alice.mail).toAd 0), .viewDidAppear 0]

def bobSwipes : List (Event Nat) :=
  [.commit 0 ((AdData.sample "Velo" "A" alice.mail).toAd 0),
    .evaluate ⟨"Velo", none⟩ (.commit 0) [1], .deliver (.answer [1] (.commit 0)),
    .apply (.updateData 1 bob.uid) (.commit 0), .deliver (.ack true (.commit 0)), .viewDidAppear 0]

def bobsCheck : Query := ⟨"Velo", some bob.uid⟩

/-- On the first check of the screen the flag follows the mark. -/
theorem resync_bobOpens : ∃ y u,
    Checked bobsFavourite 0 bobOpens bobsCheck [1] [] y u ∧ InSync u 0 := by
  obtain ⟨y, u, h, hs, hsession, hads⟩ : ∃ y u,
      Checked bobsFavourite 0 bobOpens bobsCheck [1] [] y u ∧
      y.screens 0 = some ⟨0, (AdData.sample "Velo" "A" alice.mail).toAd 0, none⟩ ∧
      y.session 0 = some bob ∧ y.ads = bobsFavourite.ads :=
    ⟨_, _, ⟨rfl, rfl, rfl, rfl, rfl, rfl⟩, rfl, rfl, rfl⟩
  have hcarries : Carries y.ads ((AdData.sample "Velo" "A" alice.mail).toAd 0) bob.uid := by
    rw [hads]
    exact ⟨1, _, rfl, (AdData.fields_shows _ 0).update_mark bob.uid _, rfl⟩
  refine ⟨y, u, h, (resync_iff h hs hsession).mpr
    ⟨fun _ => Or.inl ?_, fun hnot => absurd hcarries hnot⟩⟩
  rw [← h.current]
  decide

/-- After a swipe in the list of favourites, the next check leaves the flag up. -/
theorem resync_bobSwipes : ∃ y u,
    Checked bobsFavourite 0 (bobOpens ++ [.evaluate bobsCheck (.checkFavorites 0) [1],
      .deliver (.answer [1] (.checkFavorites 0))] ++ bobSwipes) bobsCheck [] [] y u ∧
    y.session 0 = some bob ∧ DistinctTitles y.ads ∧ ¬InSync u 0 := by
  obtain ⟨y, u, h, hs, hsession, data, hads, hmark, hshows⟩ : ∃ y u,
      Checked bobsFavourite 0 (bobOpens ++ [.evaluate bobsCheck (.checkFavorites 0) [1],
        .deliver (.answer [1] (.checkFavorites 0))] ++ bobSwipes) bobsCheck [] [] y u ∧
      y.screens 0 = some ⟨0, (AdData.sample "Velo" "A" alice.mail).toAd 0, some true⟩ ∧
      y.session 0 = some bob ∧ ∃ data, y.ads = bobsFavourite.ads.insert 1 data ∧
      data bob.uid.name = none ∧ Shows data ((AdData.sample "Velo" "A" alice.mail).toAd 0) :=
    ⟨_, _, ⟨rfl, rfl, rfl, rfl, rfl, rfl⟩, rfl, rfl, _, rfl, rfl,
      ((AdData.fields_shows _ 0).update_mark bob.uid _).update_mark bob.uid _⟩
  have hdistinct : DistinctTitles y.ads := by
    rw [hads, bobsFavourite, Finmap.insert_insert]
    exact distinctField_single _ _ _
  have hdata : y.ads.lookup 1 = some data := by
    rw [hads, Finmap.lookup_insert]
  refine ⟨y, u, h, hsession, hdistinct, fun hsync => ?_⟩
  rcases (resync_same_session h hs hsession rfl hdistinct hdata hshows).mp hsync with hm | htold
  · rw [Marked, hmark] at hm
    contradiction
  · exact htold rfl

end VoisinMalin
