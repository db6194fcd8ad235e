import VoisinMalin.AdForm
import VoisinMalin.Navigation

/-! The mail of a published ad. `publishButton` reads it from the user default `userMail`, which no
sign-out clears, and not from the session. The form sets the default when it loads, and Home, where
one signs out, is never above a form; but a sign-in that is answered while a form is on a stack opens
a session without a word to the default. So an ad is published under its publisher's mail exactly when
the last sign-in since the default was written, if there is one, is of the user it names. -/

namespace VoisinMalin

open EventMachine Device

variable {Number Double : Type}

/-- The stacks that the segues of the storyboard build. -/
inductive Storyboard : Tab → List (Page Double) → Prop
  | root (tab : Tab) : Storyboard tab []
  | goHome : Storyboard .search [.home]
  | goAd : Storyboard .search [.adCreate, .home]
  | didSelectRow (tab : Tab) (d : Detail Double) : Storyboard tab [.detail d]
  | homeToDetail (d : Detail Double) : Storyboard .search [.detail d, .home]

section Storyboard

variable {tab : Tab} {pages : List (Page Double)}

theorem Storyboard.tail (h : Storyboard tab pages) : Storyboard tab pages.tail := by
  cases h with
  | root | goHome | didSelectRow d => exact .root _
  | goAd | homeToDetail d => exact .goHome

theorem Storyboard.favorites_form (h : Storyboard .favorites pages) : .adCreate ∉ pages := by
  cases h <;> simp

/-- Home is on the first tab, right above its root. -/
theorem Storyboard.of_home {rest : List (Page Double)} (h : Storyboard tab (.home :: rest)) :
    tab = .search ∧ rest = [] := by
  cases h
  exact ⟨rfl, rfl⟩

end Storyboard

section Step

variable {d d' : Device Double} {e : DeviceEvent Double}

theorem appear_cases (d : Device Double) : d.appear = d.setUserMail ∨ d.appear = d := by
  unfold Device.appear
  split
  · exact Or.inl rfl
  · exact Or.inr rfl

/-! ### The stacks -/

def Arranged (d : Device Double) : Prop := ∀ tab, Storyboard tab (d.stack tab)

theorem Arranged.setStack (hd : Arranged d) {tab : Tab} {pages : List (Page Double)}
    (hpages : Storyboard tab pages) : Arranged (d.setStack tab pages) := by
  intro t
  by_cases h : t = tab
  · subst h
    simpa [Device.setStack] using hpages
  · simpa [Device.setStack, h] using hd t

theorem Arranged.appear (hd : Arranged d) : Arranged d.appear := by
  intro tab
  rw [appear_stack]
  exact hd tab

theorem Arranged.pops (hd : Arranged d) {tab : Tab} {pages : List (Page Double)}
    (hpages : Storyboard tab pages) : Arranged (d.pops tab pages) := by
  have hset := hd.setStack hpages
  unfold Device.pops
  split
  · exact hset.appear
  · exact hset

/-- What Home's segues push on it. -/
theorem Arranged.push_home (hd : Arranged d) {page : Page Double} {rest : List (Page Double)}
    (htop : d.stack d.selected = .home :: rest) (hpage : Storyboard .search [page, .home]) :
    Arranged (d.push page) := by
  refine hd.setStack ?_
  have hstack := hd d.selected
  rw [htop] at hstack
  obtain ⟨hselected, rfl⟩ := hstack.of_home
  rw [htop, hselected]
  exact hpage

/-- Home is on the screen, so no form is on a stack. -/
theorem Arranged.no_form (hd : Arranged d) {rest : List (Page Double)}
    (htop : d.stack d.selected = .home :: rest) (tab : Tab) : .adCreate ∉ d.stack tab := by
  have hselected := hd d.selected
  rw [htop] at hselected
  obtain ⟨hsearch, rfl⟩ := hselected.of_home
  rw [hsearch] at htop
  cases tab with
  | search => simp [htop]
  | favorites => exact (hd .favorites).favorites_form

theorem arranged_step (hd : Arranged d) (h : step d e = some d') : Arranged d' := by
  cases Device.step_stepped h with
  | select tab =>
    have hselected : Arranged { d with selected := tab } := hd
    exact hselected.appear
  | @leave _ tab pages opens left =>
    rcases left with rfl | rfl
    · exact hd.pops (.root tab)
    · exact hd.pops (hd tab).tail
  | goHome selected root =>
    refine (hd.setStack ?_).appear
    rw [selected, root]
    exact .goHome
  | goAd top =>
    have hset : Arranged d.setUserMail := hd
    exact hset.push_home top .goAd
  | @didSelectRow ad top =>
    have hset : Arranged (d.updateAds ad).1 := hd
    rcases top with hroot | ⟨rest, htop⟩
    · refine hset.setStack ?_
      rw [show (d.updateAds ad).1.stack = d.stack from rfl]
      exact hroot ▸ .didSelectRow _ _
    · exact hset.push_home htop (.homeToDetail _)
  | decoPressButton top => exact hd
  | answer mem =>
    intro tab
    rw [signedIn_stack]
    exact hd tab
  | covers opens stack user late userMail =>
    intro tab
    rw [stack]
    exact hd tab

/-! ### The user default -/

/-- What a step does to the user default and the session: it writes the default, it opens a session,
or it keeps both as long as there is a form. Only a step that writes the default brings a form. -/
inductive Kept (d d' : Device Double) : DeviceEvent Double → Prop
  | written {e : DeviceEvent Double} (late : d'.late = none)
      (userMail : d'.userMail = d'.user.map User.mail) : Kept d d' e
  | opened {r : Request} (forms : ∀ tab, .adCreate ∈ d'.stack tab → .adCreate ∈ d.stack tab)
      (session : d'.user = some r.user) (late : d'.late = some r.user)
      (userMail : d'.userMail = d.userMail) : Kept d d' (.answer r)
  | kept {e : DeviceEvent Double}
      (forms : ∀ tab, .adCreate ∈ d'.stack tab → .adCreate ∈ d.stack tab ∧ d'.user = d.user)
      (late : d'.late = d.late) (userMail : d'.userMail = d.userMail) : Kept d d' e

theorem Kept.appear (h : Kept d d' e) : Kept d d'.appear e := by
  rcases appear_cases d' with happear | happear
  · rw [happear]
    exact .written rfl rfl
  · rw [happear]
    exact h

theorem setStack_kept {tab : Tab} {pages : List (Page Double)}
    (hforms : .adCreate ∈ pages → .adCreate ∈ d.stack tab) : Kept d (d.setStack tab pages) e := by
  refine .kept (fun t ht => ⟨?_, rfl⟩) rfl rfl
  by_cases htab : t = tab
  · subst htab
    simp only [Device.setStack, Function.update_self] at ht
    exact hforms ht
  · simpa only [Device.setStack, Function.update_of_ne htab] using ht

theorem pops_kept_default {tab : Tab} {pages : List (Page Double)}
    (hforms : .adCreate ∈ pages → .adCreate ∈ d.stack tab) : Kept d (d.pops tab pages) e := by
  unfold Device.pops
  split
  · exact (setStack_kept hforms).appear
  · exact setStack_kept hforms

theorem step_kept (hd : Arranged d) (h : step d e = some d') : Kept d d' e := by
  cases Device.step_stepped h with
  | select tab =>
    have hselected : Kept d { d with selected := tab } (.tab tab) :=
      .kept (fun _ hm => ⟨hm, rfl⟩) rfl rfl
    exact hselected.appear
  | leave opens left =>
    rcases left with rfl | rfl
    · exact pops_kept_default (by simp)
    · exact pops_kept_default List.mem_of_mem_tail
  | goHome selected root => exact (setStack_kept (by simp)).appear
  | goAd top => exact .written rfl rfl
  | didSelectRow top => exact .written rfl rfl
  | decoPressButton top => exact .kept (fun tab hm => absurd hm (hd.no_form top tab)) rfl rfl
  | @answer request mem =>
    have hanswered : Kept d (d.answered request) (.answer request) :=
      .opened (fun _ => id) rfl rfl rfl
    unfold Device.signedIn
    split
    · exact hanswered.appear
    · exact hanswered
  | covers opens stack user late userMail =>
    exact .kept (fun _ hm => ⟨stack ▸ hm, user⟩) late userMail

/-- While a form is on a stack, the default is the mail of the session, or a sign-in has opened the
session since. -/
structure OwnDefault (d : Device Double) : Prop where
  arranged : Arranged d
  unchanged : ∀ tab, .adCreate ∈ d.stack tab → d.late = none → d.userMail = d.user.map User.mail
  late : ∀ tab user, .adCreate ∈ d.stack tab → d.late = some user → d.user = some user

theorem ownDefault_step (hd : OwnDefault d) (h : step d e = some d') : OwnDefault d' := by
  refine ⟨arranged_step hd.arranged h, ?_, ?_⟩
  · intro tab hm hlate
    cases step_kept hd.arranged h with
    | written late userMail => exact userMail
    | opened forms session late userMail =>
      rw [late] at hlate
      contradiction
    | kept forms late userMail =>
      obtain ⟨hform, huser⟩ := forms tab hm
      rw [userMail, huser]
      exact hd.unchanged tab hform (late ▸ hlate)
  · intro tab user hm hlate
    cases step_kept hd.arranged h with
    | written late userMail =>
      rw [late] at hlate
      contradiction
    | opened forms session late userMail =>
      rw [late] at hlate
      exact session.trans hlate
    | kept forms late userMail =>
      obtain ⟨hform, huser⟩ := forms tab hm
      rw [huser]
      exact hd.late tab user hform (late ▸ hlate)

/-- No sign-in is answered while a form is on a stack, unless the default is empty or the mail of the
user who signs in. -/
def AnsweredInTime (d : Device Double) (e : DeviceEvent Double) : Prop :=
  ∀ request tab, e = .answer request → .adCreate ∈ d.stack tab →
    d.userMail = none ∨ d.userMail = some request.user.mail

/-- While a form is on a stack, the default is empty or the mail of the last user who has signed in
since it was written. -/
def NamesLate (d : Device Double) : Prop :=
  ∀ tab user, .adCreate ∈ d.stack tab → d.late = some user →
    d.userMail = none ∨ d.userMail = some user.mail

theorem namesLate_step (hd : Arranged d) (hlate : NamesLate d) (he : AnsweredInTime d e)
    (h : step d e = some d') : NamesLate d' := by
  intro tab user hm huser
  cases step_kept hd h with
  | written late userMail =>
    rw [late] at huser
    contradiction
  | @opened r forms session late userMail =>
    rw [late] at huser
    cases huser
    rw [userMail]
    exact he r tab rfl (forms tab hm)
  | kept forms late userMail =>
    rw [userMail]
    exact hlate tab user (forms tab hm).1 (late ▸ huser)

end Step

/-- A device with the ads that its forms have written, each with the session of the press. -/
structure Publisher (Double : Type) where
  device : Device Double
  written : List (Option User × AdData)

inductive PublisherEvent (Double : Type) where
  | screen (e : DeviceEvent Double)
  | publishButton (form : Form) (unique : String) (url : Option String)

namespace Publisher

def launch (user : Option User) (userMail : Option String) : Publisher Double :=
  ⟨Device.launch user userMail, []⟩

/-- A press needs a form on the screen. -/
def step (sv : FormServices Number) (s : Publisher Double) :
    PublisherEvent Double → Option (Publisher Double)
  | .screen e => (s.device.step e).map fun d => { s with device := d }
  | .publishButton form unique url =>
    match s.device.stack s.device.selected with
    | .adCreate :: _ =>
      if s.device.modals ≠ [] then none
      else
        match form.publish sv unique s.device.userMail url with
        | some data => some { s with written := s.written ++ [(s.device.user, data)] }
        | none => some s
    | _ => none

/-- Every ad has been written under the mail of the user who was signed in. -/
def OwnMail (s : Publisher Double) : Prop :=
  ∀ user data, (user, data) ∈ s.written → user.map User.mail = some data.mail

/-- A press that is accepted finds that the last user who has signed in since the default was written,
if there is one, is the user whose mail it has. -/
def InTime (sv : FormServices Number) (s : Publisher Double) (e : PublisherEvent Double) : Prop :=
  ∀ form unique url user, e = .publishButton form unique url →
    (form.publish sv unique s.device.userMail url).isSome → s.device.late = some user →
    s.device.userMail = some user.mail

/-- Each sign-in is answered in time. -/
def TimelyAnswers (s : Publisher Double) (e : PublisherEvent Double) : Prop :=
  ∀ screen, e = .screen screen → AnsweredInTime s.device screen

variable {sv : FormServices Number} {s t : Publisher Double} {e : PublisherEvent Double}

theorem launch_ownDefault (user : Option User) (userMail : Option String) :
    OwnDefault (Device.launch user userMail : Device Double) where
  arranged := .root
  unchanged := fun _ hm => by simp [Device.launch] at hm
  late := fun _ _ hm => by simp [Device.launch] at hm

theorem step_ownDefault (hs : OwnDefault s.device) (h : step sv s e = some t) :
    OwnDefault t.device := by
  cases e with
  | screen e =>
    obtain ⟨d, hd, rfl⟩ := Option.map_eq_some_iff.mp h
    exact ownDefault_step hs hd
  | publishButton form unique url =>
    simp only [step] at h
    split at h
    · split at h
      · contradiction
      · split at h
        · cases h
          exact hs
        · cases h
          exact hs
    · contradiction

/-- An accepted press writes the mail of the session exactly when it is in time. -/
theorem press_own_iff {form : Form} {unique : String} {url : Option String} {data : AdData}
    {tab : Tab} (hs : OwnDefault s.device) (hform : .adCreate ∈ s.device.stack tab)
    (hdata : form.publish sv unique s.device.userMail url = some data) :
    s.device.user.map User.mail = some data.mail ↔ InTime sv s (.publishButton form unique url) := by
  have hmail := (Form.publish_yields hdata).mail
  constructor
  · intro hown form' unique' url' user he _ hlate
    rw [hs.late tab user hform hlate, Option.map_some] at hown
    rw [hmail, hown]
  · intro htime
    cases hlate : s.device.late with
    | none => rw [← hs.unchanged tab hform hlate, hmail]
    | some user =>
      have hnamed := htime form unique url user rfl (by rw [hdata, Option.isSome_some]) hlate
      rw [hs.late tab user hform hlate, Option.map_some, ← hnamed, hmail]

theorem step_ownMail_iff (hs : OwnDefault s.device) (hown : s.OwnMail) (h : step sv s e = some t) :
    t.OwnMail ↔ InTime sv s e := by
  cases e with
  | screen e =>
    obtain ⟨d, hd, rfl⟩ := Option.map_eq_some_iff.mp h
    refine ⟨fun _ form unique url user he => ?_, fun _ => hown⟩
    contradiction
  | publishButton form unique url =>
    simp only [step] at h
    split at h
    · rename_i rest htop
      split at h
      · contradiction
      · split at h
        · rename_i data hdata
          cases h
          have hform : .adCreate ∈ s.device.stack s.device.selected := by simp [htop]
          rw [← press_own_iff hs hform hdata]
          constructor
          · exact fun hown' => hown' _ _ (by simp)
          · intro hpress user data' hmem
            rcases List.mem_append.mp hmem with hold | hnew
            · exact hown user data' hold
            · obtain ⟨rfl, rfl⟩ := Prod.mk.inj (List.mem_singleton.mp hnew)
              exact hpress
        · rename_i hrefused
          cases h
          refine ⟨fun _ form' unique' url' user he haccepted => ?_, fun _ => hown⟩
          cases he
          rw [hrefused] at haccepted
          contradiction
    · contradiction

theorem step_namesLate (hs : OwnDefault s.device ∧ NamesLate s.device) (he : TimelyAnswers s e)
    (h : step sv s e = some t) : OwnDefault t.device ∧ NamesLate t.device := by
  refine ⟨step_ownDefault hs.1 h, ?_⟩
  cases e with
  | screen e =>
    obtain ⟨d, hd, rfl⟩ := Option.map_eq_some_iff.mp h
    exact namesLate_step hs.1.arranged hs.2 (he e rfl) hd
  | publishButton form unique url =>
    simp only [step] at h
    split at h
    · split at h
      · contradiction
      · split at h
        · cases h
          exact hs.2
        · cases h
          exact hs.2
    · contradiction

/-- Where every sign-in is answered in time, every press is in time. -/
theorem inTime_of_namesLate (hs : NamesLate s.device) (h : step sv s e = some t) :
    InTime sv s e := by
  rintro form unique url user rfl haccepted hlate
  obtain ⟨data, hdata⟩ := Option.isSome_iff_exists.mp haccepted
  have hmail := (Form.publish_yields hdata).mail
  simp only [step] at h
  split at h
  · rename_i rest htop
    have hform : .adCreate ∈ s.device.stack s.device.selected := by simp [htop]
    refine (hs _ user hform hlate).resolve_left ?_
    rw [hmail]
    exact Option.some_ne_none _
  · contradiction

end Publisher

open Publisher

/-- In every run each ad is written under the mail of the user signed in at the press exactly when each
accepted press is in time, and it is enough for it that no sign-in is answered while a form is open,
unless the default is empty or the mail of the user who signs in. -/
theorem publish_ownMail_iff (sv : FormServices Number) (user : Option User)
    (userMail : Option String) (es : List (PublisherEvent Double)) :
    (Always (Publisher.step sv) OwnMail (Publisher.launch user userMail) es ↔
      Along (Publisher.step sv) (InTime sv) (Publisher.launch user userMail) es) ∧
    (Along (Publisher.step sv) TimelyAnswers (Publisher.launch user userMail) es →
      Always (Publisher.step sv) OwnMail (Publisher.launch user userMail) es) := by
  have hlaunch : OwnDefault (Device.launch user userMail : Device Double) :=
    Publisher.launch_ownDefault user userMail
  have hiff : Always (Publisher.step sv) OwnMail (Publisher.launch user userMail) es ↔
      Along (Publisher.step sv) (InTime sv) (Publisher.launch user userMail) es :=
    always_iff_along (I := fun s => OwnDefault s.device) (fun _ _ _ => step_ownDefault)
      (fun _ _ _ hs hown h => step_ownMail_iff hs hown h) hlaunch
      (fun _ _ hm => by simp [Publisher.launch] at hm)
  refine ⟨hiff, fun h => hiff.mpr ?_⟩
  exact h.imp_of (I := fun s => OwnDefault s.device ∧ NamesLate s.device)
    (fun _ _ _ => step_namesLate) (fun _ _ _ hs _ h => inTime_of_namesLate hs.2 h)
    ⟨hlaunch, fun _ _ hm => by simp [Publisher.launch, Device.launch] at hm⟩

def veloForm : Form :=
  { Form.loaded 0 with title := "Velo", description := "Bon etat", price := "40", phone := "0600000000" }

/-- Alice presses the button of the login, and Bob, on the same device, presses it again before the
first answer. Alice is signed in and opens the form; then Bob's sign-in is answered, and the form is
published. -/
def answeredLate : List (PublisherEvent Nat) :=
  [.screen .presentLogin, .screen (.loginViewPressButton alice), .screen (.loginViewPressButton bob),
    .screen (.answer ⟨alice, .login 0⟩), .screen .goHome, .screen .goAd,
    .screen (.answer ⟨bob, .login 0⟩), .publishButton veloForm "A" (some "image")]

/-- Bob's ad is written under Alice's mail. -/
theorem answeredLate_foreign : ∃ s, run (Publisher.step plainServices)
    (Publisher.launch none none) answeredLate = some s ∧ ¬s.OwnMail := by
  refine ⟨_, rfl, fun h => ?_⟩
  exact absurd (h (some bob) _ List.mem_cons_self) (by decide)

end VoisinMalin
