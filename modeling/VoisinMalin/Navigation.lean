import VoisinMalin.Library.Run
import VoisinMalin.Model

/-! The screens of one device: the two tabs of Main.storyboard with what is pushed on their roots, the
session, the login that covers both, and the user default `userMail`, which a detail screen, Home and
the creation form write. A sign-in or a sign-up is a request that nothing cancels: it is answered at
any time, also after another answer has dismissed the login. A detail screen decides once, when it
loads, whether it offers the delete button; both tabs keep their screens over a sign-out and the next
sign-in. -/

namespace VoisinMalin

open EventMachine

variable {Double : Type}

inductive Tab where
  | search
  | favorites
deriving DecidableEq

/-- A DetailViewController with its ad, and the session in which it was loaded. -/
structure Detail (Double : Type) where
  demoAd : DefaultAds Double
  delButtonHidden : Bool
  loadedBy : Option User
deriving DecidableEq

/-- What a navigation stack has above its root, SearchListController or FavoriteListController. -/
inductive Page (Double : Type) where
  | home
  | adCreate
  | detail (d : Detail Double)
deriving DecidableEq

/-- A LoginViewController, or an AuthentificationViewController that it has presented. -/
inductive LoginScreen where
  | login (n : ℕ)
  | signUp (n : ℕ)
deriving DecidableEq

/-- What covers the tabs. -/
inductive Modal where
  | screen (screen : LoginScreen)
  | alert
deriving DecidableEq

/-- A sign-in or a sign-up under way, with the session that it opens if it succeeds. -/
structure Request where
  user : User
  sender : LoginScreen
deriving DecidableEq

structure Device (Double : Type) where
  user : Option User
  userMail : Option String -- the user default
  late : Option User -- who has signed in since the user default was last written; no step reads it
  selected : Tab
  stack : Tab → List (Page Double) -- the top page first
  queued : Bool -- the listener of TabBarController has put the login on the main queue
  modals : List Modal -- the top one first
  screens : ℕ -- the login and sign-up screens so far
  requests : List Request

inductive DeviceEvent (Double : Type) where
  | tab (tab : Tab)
  | goHome
  | goAd
  | didSelectRow (ad : DefaultAds Double)
  | pop (tab : Tab)
  | popToRoot (tab : Tab)
  | decoPressButton
  | presentLogin
  | noAccountButton
  | close
  | loginViewPressButton (user : User)
  | signupPressButton (user : User)
  | answer (request : Request)
  | refuse (request : Request)
deriving DecidableEq

/-- `dismiss` of a controller dismisses what it presents, and the controller itself where it presents
nothing. One that is off the screen has nothing to dismiss. -/
def dismiss (screen : LoginScreen) : List Modal → List Modal
  | [] => []
  | modal :: modals =>
    if modal = .screen screen then modals
    else if .screen screen ∈ modals then modals.dropWhile (· != .screen screen)
    else modal :: modals

/-- What the callback of a successful request does to the screens: the login dismisses itself, and the
sign-up unwinds to the login, which dismisses itself. -/
def LoginScreen.callback (screen : LoginScreen) (modals : List Modal) : List Modal :=
  match screen with
  | .login _ => dismiss screen modals
  | .signUp _ => if .screen screen ∈ modals then [] else modals

namespace Device

def launch (user : Option User) (userMail : Option String) : Device Double where
  user := user
  userMail := userMail
  late := none
  selected := .search
  stack := fun _ => []
  queued := user.isNone
  modals := []
  screens := 0
  requests := []

def setUserMail (d : Device Double) : Device Double :=
  { d with userMail := d.user.map User.mail, late := none }

def setStack (d : Device Double) (tab : Tab) (pages : List (Page Double)) : Device Double :=
  { d with stack := Function.update d.stack tab pages }

/-- `viewDidAppear` of the visible page. Only Home writes the user default. -/
def appear (d : Device Double) : Device Double :=
  match d.stack d.selected with
  | .home :: _ => d.setUserMail
  | _ => d

/-- `viewDidLoad` of a detail screen: `updateAds` sets the user default and compares the ad's mail
with it. -/
def updateAds (d : Device Double) (ad : DefaultAds Double) : Device Double × Detail Double :=
  let d := d.setUserMail
  (d, { demoAd := ad, delButtonHidden := d.userMail != some ad.mail, loadedBy := d.user })

def push (d : Device Double) (page : Page Double) : Device Double :=
  d.setStack d.selected (page :: d.stack d.selected)

def didSelectRow (d : Device Double) (ad : DefaultAds Double) : Device Double :=
  (d.updateAds ad).1.push (.detail (d.updateAds ad).2)

/-- A stack loses pages, and the page below appears if it is visible. -/
def pops (d : Device Double) (tab : Tab) (pages : List (Page Double)) : Device Double :=
  if tab = d.selected ∧ d.modals = [] then (d.setStack tab pages).appear
  else d.setStack tab pages

def present (d : Device Double) (screen : ℕ → LoginScreen) : Device Double :=
  { d with modals := .screen (screen d.screens) :: d.modals, screens := d.screens + 1 }

def send (d : Device Double) (user : User) (sender : LoginScreen) : Device Double :=
  { d with requests := d.requests ++ [⟨user, sender⟩] }

/-- A request succeeds: the session is its user's, and its callback runs. -/
def answered (d : Device Double) (request : Request) : Device Double :=
  { d with
    user := some request.user
    late := some request.user
    requests := d.requests.erase request
    modals := request.sender.callback d.modals }

/-- The page under the login appears when the callback has uncovered it. -/
def signedIn (d : Device Double) (request : Request) : Device Double :=
  if (d.answered request).modals = [] ∧ d.modals ≠ [] then (d.answered request).appear
  else d.answered request

/-- A request fails: its screen shows an alert if nothing covers it. -/
def refused (d : Device Double) (request : Request) : Device Double :=
  { d with
    requests := d.requests.erase request
    modals := if d.modals.head? = some (.screen request.sender) then .alert :: d.modals
      else d.modals }

def step (d : Device Double) : DeviceEvent Double → Option (Device Double)
  | .tab tab =>
    if d.modals ≠ [] then none
    else if tab = d.selected then some (d.pops tab [])
    else some (appear { d with selected := tab })
  | .goHome =>
    if d.modals = [] ∧ d.selected = .search ∧ d.stack .search = [] then
      some (d.push .home).appear
    else none
  -- The form sets the user default when it loads.
  | .goAd =>
    match d.stack d.selected with
    | .home :: _ => if d.modals = [] then some (d.setUserMail.push .adCreate) else none
    | _ => none
  -- The two root lists and Home have rows.
  | .didSelectRow ad =>
    match d.stack d.selected with
    | [] | .home :: _ => if d.modals = [] then some (d.didSelectRow ad) else none
    | _ => none
  | .pop tab => some (d.pops tab (d.stack tab).tail)
  | .popToRoot tab => some (d.pops tab [])
  | .decoPressButton =>
    match d.stack d.selected with
    | .home :: _ => if d.modals = [] then some { d with user := none, queued := true } else none
    | _ => none
  -- The tab bar controller presents one controller at a time.
  | .presentLogin =>
    if d.queued = false then none
    else if d.modals = [] then some { d.present .login with queued := false }
    else some { d with queued := false }
  | .noAccountButton =>
    match d.modals with
    | .screen (.login _) :: _ => some (d.present .signUp)
    | _ => none
  -- The login fills the screen; the sign-up is a card that can be swiped away.
  | .close =>
    match d.modals with
    | .screen (.signUp _) :: modals | .alert :: modals => some { d with modals := modals }
    | _ => none
  | .loginViewPressButton user =>
    match d.modals with
    | .screen (.login n) :: _ => some (d.send user (.login n))
    | _ => none
  | .signupPressButton user =>
    match d.modals with
    | .screen (.signUp n) :: _ => some (d.send user (.signUp n))
    | _ => none
  | .answer request => if request ∈ d.requests then some (d.signedIn request) else none
  | .refuse request => if request ∈ d.requests then some (d.refused request) else none

end Device

open Device

/-- The session that a sign-in or a sign-up opens. -/
def DeviceEvent.opens : DeviceEvent Double → Option User
  | .answer request => some request.user
  | _ => none

/-- Each visible delete button is on an ad of the signed-in user. -/
def OfferedToOwner (d : Device Double) : Prop :=
  ∀ user tab detail, d.user = some user → .detail detail ∈ d.stack tab →
    detail.delButtonHidden = false → detail.demoAd.mail = user.mail

/-- No user signs in while a tab has a detail screen that the owner of its ad, another user, has
left there. -/
def LeavesNoOwnAd (d : Device Double) (e : DeviceEvent Double) : Prop :=
  ∀ user tab detail, e.opens = some user → .detail detail ∈ d.stack tab →
    detail.loadedBy.map User.mail = some detail.demoAd.mail → detail.demoAd.mail = user.mail

/-- The delete button of each detail screen is visible when its ad is of the session in which the
screen was loaded. -/
def LoadedOnce (d : Device Double) : Prop :=
  ∀ tab detail, .detail detail ∈ d.stack tab →
    (detail.delButtonHidden = false ↔ detail.loadedBy.map User.mail = some detail.demoAd.mail)

section Step

variable {d d' : Device Double} {e : DeviceEvent Double}

@[simp] theorem appear_user (d : Device Double) : d.appear.user = d.user := by
  unfold appear
  split <;> rfl

@[simp] theorem appear_stack (d : Device Double) : d.appear.stack = d.stack := by
  unfold appear
  split <;> rfl

@[simp] theorem signedIn_user (d : Device Double) (request : Request) :
    (d.signedIn request).user = some request.user := by
  unfold signedIn
  split <;> simp [answered]

@[simp] theorem signedIn_stack (d : Device Double) (request : Request) :
    (d.signedIn request).stack = d.stack := by
  unfold signedIn
  split <;> simp [answered]

/-- What a step makes of a device. -/
inductive Device.Stepped (d : Device Double) : DeviceEvent Double → Device Double → Prop
  | select (tab : Tab) : Stepped d (.tab tab) (appear { d with selected := tab })
  | leave {e : DeviceEvent Double} {tab : Tab} {pages : List (Page Double)} (opens : e.opens = none)
      (left : pages = [] ∨ pages = (d.stack tab).tail) : Stepped d e (d.pops tab pages)
  | goHome (selected : d.selected = .search) (root : d.stack .search = []) :
      Stepped d .goHome (d.push .home).appear
  | goAd {rest : List (Page Double)} (top : d.stack d.selected = .home :: rest) :
      Stepped d .goAd (d.setUserMail.push .adCreate)
  | didSelectRow {ad : DefaultAds Double}
      (top : d.stack d.selected = [] ∨ ∃ rest, d.stack d.selected = .home :: rest) :
      Stepped d (.didSelectRow ad) (d.didSelectRow ad)
  | decoPressButton {rest : List (Page Double)} (top : d.stack d.selected = .home :: rest) :
      Stepped d .decoPressButton { d with user := none, queued := true }
  | answer {request : Request} (mem : request ∈ d.requests) :
      Stepped d (.answer request) (d.signedIn request)
  | covers {e : DeviceEvent Double} {d' : Device Double} (opens : e.opens = none)
      (stack : d'.stack = d.stack) (user : d'.user = d.user) (late : d'.late = d.late)
      (userMail : d'.userMail = d.userMail) : Stepped d e d'

theorem Device.step_stepped (h : step d e = some d') : Stepped d e d' := by
  cases e with
  | tab tab =>
    simp only [step] at h
    split at h
    · contradiction
    · split at h
      · cases h
        exact .leave rfl (Or.inl rfl)
      · cases h
        exact .select tab
  | goHome =>
    simp only [step] at h
    split at h
    · rename_i hhome
      cases h
      exact .goHome hhome.2.1 hhome.2.2
    · contradiction
  | goAd =>
    simp only [step] at h
    split at h
    · rename_i rest htop
      split at h
      · cases h
        exact .goAd htop
      · contradiction
    · contradiction
  | didSelectRow ad =>
    simp only [step] at h
    split at h
    · rename_i htop
      split at h
      · cases h
        exact .didSelectRow (Or.inl htop)
      · contradiction
    · rename_i rest htop
      split at h
      · cases h
        exact .didSelectRow (Or.inr ⟨rest, htop⟩)
      · contradiction
    · contradiction
  | pop tab =>
    cases h
    exact .leave rfl (Or.inr rfl)
  | popToRoot tab =>
    cases h
    exact .leave rfl (Or.inl rfl)
  | decoPressButton =>
    simp only [step] at h
    split at h
    · rename_i rest htop
      split at h
      · cases h
        exact .decoPressButton htop
      · contradiction
    · contradiction
  | presentLogin =>
    simp only [step] at h
    split at h
    · contradiction
    · split at h
      · cases h
        exact .covers rfl rfl rfl rfl rfl
      · cases h
        exact .covers rfl rfl rfl rfl rfl
  | noAccountButton | loginViewPressButton user | signupPressButton user =>
    simp only [step] at h
    split at h
    · cases h
      exact .covers rfl rfl rfl rfl rfl
    · contradiction
  | close =>
    simp only [step] at h
    split at h
    · cases h
      exact .covers rfl rfl rfl rfl rfl
    · cases h
      exact .covers rfl rfl rfl rfl rfl
    · contradiction
  | answer request =>
    simp only [step] at h
    split at h
    · rename_i hmem
      cases h
      exact .answer hmem
    · contradiction
  | refuse request =>
    simp only [step] at h
    split at h
    · cases h
      exact .covers rfl rfl rfl rfl rfl
    · contradiction

/-- What a step does to the session and the detail screens: a sign-in or a sign-up leaves the
screens, the sign-out ends the session, and any other step keeps the session and adds at most a
screen that it has loaded. -/
inductive Moved (d d' : Device Double) : DeviceEvent Double → Prop
  | opened {e : DeviceEvent Double} {user : User} (opens : e.opens = some user)
      (session : d'.user = some user) (stack : d'.stack = d.stack) : Moved d d' e
  | closed {e : DeviceEvent Double} (opens : e.opens = none) (session : d'.user = none)
      (stack : d'.stack = d.stack) : Moved d d' e
  | kept {e : DeviceEvent Double} (opens : e.opens = none) (session : d'.user = d.user)
      (stack : ∀ tab detail, .detail detail ∈ d'.stack tab → .detail detail ∈ d.stack tab ∨
        ∃ ad, detail = (d.updateAds ad).2) : Moved d d' e

theorem pops_kept {tab : Tab} {pages : List (Page Double)} (he : e.opens = none)
    (hpages : ∀ page ∈ pages, page ∈ d.stack tab) : Moved d (d.pops tab pages) e := by
  have hstack : (d.pops tab pages).stack = (d.setStack tab pages).stack := by
    unfold pops
    split <;> simp
  refine .kept he ?_ fun tab' detail h => Or.inl ?_
  · unfold pops
    split <;> simp [setStack]
  · rw [hstack] at h
    by_cases htab : tab' = tab
    · subst htab
      simp only [setStack, Function.update_self] at h
      exact hpages _ h
    · simpa only [setStack, Function.update_of_ne htab] using h

theorem push_mem {page : Page Double} {tab : Tab} {detail : Detail Double}
    (h : .detail detail ∈ (d.push page).stack tab) :
    .detail detail ∈ d.stack tab ∨ page = .detail detail := by
  by_cases htab : tab = d.selected
  · subst htab
    simp only [push, setStack, Function.update_self, List.mem_cons] at h
    exact h.symm.imp_right Eq.symm
  · simp only [push, setStack, Function.update_of_ne htab] at h
    exact Or.inl h

theorem step_moved (h : step d e = some d') : Moved d d' e := by
  cases Device.step_stepped h with
  | select tab => exact .kept rfl (by simp) fun _ _ hm => Or.inl (by simpa using hm)
  | leave opens left =>
    rcases left with rfl | rfl
    · exact pops_kept opens (by simp)
    · exact pops_kept opens fun page hm => List.mem_of_mem_tail hm
  | goHome selected root =>
    refine .kept rfl (by simp [push, setStack]) fun tab detail hm => Or.inl ?_
    rw [appear_stack] at hm
    exact (push_mem hm).resolve_right (by simp)
  | goAd top =>
    refine .kept rfl rfl fun tab detail hm => Or.inl ?_
    exact (push_mem hm).resolve_right (by simp)
  | @didSelectRow ad top =>
    refine .kept rfl rfl fun tab detail hm => ?_
    rcases push_mem hm with hold | hnew
    · exact Or.inl hold
    · exact Or.inr ⟨ad, (Page.detail.inj hnew).symm⟩
  | decoPressButton top => exact .closed rfl rfl rfl
  | answer mem => exact .opened rfl (by simp) (by simp)
  | covers opens stack user late userMail =>
    exact .kept opens user fun _ _ hm => Or.inl (stack ▸ hm)

/-- A detail screen that loads compares its ad with the session. -/
theorem updateAds_loaded (d : Device Double) (ad : DefaultAds Double) :
    (d.updateAds ad).2.demoAd = ad ∧ (d.updateAds ad).2.loadedBy = d.user ∧
      ((d.updateAds ad).2.delButtonHidden = false ↔ d.user.map User.mail = some ad.mail) := by
  simp [updateAds, setUserMail]

theorem step_loadedOnce (hd : LoadedOnce d) (h : step d e = some d') : LoadedOnce d' := by
  intro tab detail hm
  cases step_moved h with
  | opened opens session stack => exact hd tab detail (stack ▸ hm)
  | closed opens session stack => exact hd tab detail (stack ▸ hm)
  | kept opens session stack =>
    rcases stack tab detail hm with hold | ⟨ad, rfl⟩
    · exact hd tab detail hold
    · obtain ⟨had, huser, hbutton⟩ := updateAds_loaded d ad
      rw [had, huser]
      exact hbutton

/-- From a state in which the buttons are right, a step leads to one exactly when it is no sign-in
that finds a screen left with its own ad. -/
theorem step_offered (hloaded : LoadedOnce d) (hd : OfferedToOwner d) (h : step d e = some d') :
    OfferedToOwner d' ↔ LeavesNoOwnAd d e := by
  cases step_moved h with
  | @opened user opens session stack =>
    constructor
    · intro hd' user' tab detail hopens hm hown
      rw [opens] at hopens
      cases hopens
      exact hd' user tab detail session (stack ▸ hm) ((hloaded tab detail hm).mpr hown)
    · intro hleaves user' tab detail huser hm hbutton
      rw [session] at huser
      cases huser
      rw [stack] at hm
      exact hleaves user tab detail opens hm ((hloaded tab detail hm).mp hbutton)
  | closed opens session stack =>
    refine ⟨fun _ user tab detail hopens => ?_, fun _ user tab detail huser => ?_⟩
    · rw [opens] at hopens
      contradiction
    · rw [session] at huser
      contradiction
  | kept opens session stack =>
    refine ⟨fun _ user tab detail hopens => ?_, fun _ user tab detail huser hm hbutton => ?_⟩
    · rw [opens] at hopens
      contradiction
    · rw [session] at huser
      rcases stack tab detail hm with hold | ⟨ad, rfl⟩
      · exact hd user tab detail huser hold hbutton
      · obtain ⟨had, -, hshown⟩ := updateAds_loaded d ad
        have hmail := hshown.mp hbutton
        rw [huser, Option.map_some, Option.some.injEq] at hmail
        rw [had]
        exact hmail.symm

end Step

/-- In every state of a run the visible delete buttons are on ads of the signed-in user exactly when
each sign-in of the run finds no screen that the owner of its ad, another user, has left. -/
theorem offeredToOwner_iff (user : Option User) (userMail : Option String)
    (es : List (DeviceEvent Double)) :
    Always step OfferedToOwner (launch user userMail) es ↔
      Along step LeavesNoOwnAd (launch user userMail) es :=
  always_iff_along (I := LoadedOnce) (fun _ _ _ hd h => step_loadedOnce hd h)
    (fun _ _ _ hloaded hd h => step_offered hloaded hd h)
    (fun _ _ hm => by simp [launch] at hm) (fun _ _ _ _ hm => by simp [launch] at hm)

/-- Alice opens an ad of hers in the list of favourites, signs out, and Bob signs in. -/
def aliceThenBob : List (DeviceEvent Nat) :=
  [.tab .favorites, .didSelectRow ((AdData.sample "Velo" "A" alice.mail).toAd 0), .tab .search,
    .goHome, .decoPressButton, .presentLogin, .loginViewPressButton bob, .answer ⟨bob, .login 0⟩,
    .tab .favorites]

/-- Bob gets a delete button on Alice's ad. -/
theorem aliceThenBob_offers : ∃ d, run step (launch (some alice) none) aliceThenBob = some d ∧
    ¬OfferedToOwner d := by
  refine ⟨_, rfl, fun h => ?_⟩
  exact absurd (h bob .favorites _ rfl List.mem_cons_self rfl) (by decide)

end VoisinMalin
