import VoisinMalin.SignUp

/-! How long a HomeViewController lives. The closures of its ads queries and its swipes keep it, the one
of its profile query does not, so a Home that has been popped lives until the last of the former has
been answered, and a user name that comes in after that is for the label of a released controller. -/

namespace VoisinMalin

open EventMachine

abbrev HomeID := Nat

/-- A closure of a Home that waits for Firestore. -/
inductive HomeTask where
  | bindUI (home : HomeID) (uid : String) -- `[unowned self]`
  | uploadData (home : HomeID)
  | commit (home : HomeID)
deriving DecidableEq

def HomeTask.home : HomeTask → HomeID
  | .bindUI home _ | .uploadData home | .commit home => home

/-- The closure keeps the Home. -/
def HomeTask.keeps (home : HomeID) : HomeTask → Bool
  | .bindUI _ _ => false
  | .uploadData h | .commit h => h == home

/-- The Homes pushed so far, under their numbers. -/
structure Homes where
  stack : Finset HomeID -- on a navigation stack
  pushed : Nat
  pending : List HomeTask
  trapped : Bool -- the app has stopped

inductive HomesEvent where
  | goHome
  | viewDidAppear (home : HomeID) (currentUID : Option String)
  | commit (home : HomeID)
  | pop (home : HomeID)
  | userData (home : HomeID) (uid : String) (docs : Option (List Fields)) -- `none` is an error
  | ads (home : HomeID) -- or an error
  | removed (home : HomeID)

namespace Homes

def launch : Homes := ⟨∅, 0, [], false⟩

def alive (s : Homes) (home : HomeID) : Bool :=
  home ∈ s.stack || s.pending.any (HomeTask.keeps home)

def take (s : Homes) (task : HomeTask) : Option Homes :=
  if task ∈ s.pending then some { s with pending := s.pending.erase task } else none

def step (s : Homes) (e : HomesEvent) : Option Homes :=
  if s.trapped then none
  else match e with
  | .goHome => some { s with stack := insert s.pushed s.stack, pushed := s.pushed + 1 }
  | .viewDidAppear home currentUID =>
    if home ∈ s.stack then some { s with pending :=
      s.pending ++ ((currentUID.map (HomeTask.bindUI home)).toList ++ [.uploadData home]) }
    else none
  | .commit home =>
    if home ∈ s.stack then some { s with pending := s.pending ++ [.commit home] } else none
  | .pop home => if home ∈ s.stack then some { s with stack := s.stack.erase home } else none
  | .userData home uid docs =>
    if (docs.getD []).all (whereField "uid" uid) then
      (s.take (.bindUI home uid)).map fun t =>
        -- Without a user name the callback returns; with one it traps where its Home is gone.
        { t with trapped := (userName? docs).isSome && !t.alive home }
    else none
  | .ads home => s.take (.uploadData home)
  | .removed home => s.take (.commit home)

end Homes

namespace HomesEvent

def pushes : HomesEvent → Bool
  | .goHome => true
  | _ => false

/-- The closure whose answer the event brings. -/
def taken : HomesEvent → Option HomeTask
  | .userData home uid _ => some (.bindUI home uid)
  | .ads home => some (.uploadData home)
  | .removed home => some (.commit home)
  | _ => none

/-- The closures that the event sends to Firestore. -/
def issued : HomesEvent → List HomeTask
  | .viewDidAppear home currentUID =>
    (currentUID.map (HomeTask.bindUI home)).toList ++ [.uploadData home]
  | .commit home => [.commit home]
  | _ => []

/-- The event sends a closure that keeps the Home. -/
def sends (home : HomeID) : HomesEvent → Bool
  | .viewDidAppear h _ | .commit h => h == home
  | _ => false

/-- The event answers a closure that keeps the Home. -/
def returns (home : HomeID) : HomesEvent → Bool
  | .ads h | .removed h => h == home
  | _ => false

/-- The user name that the event brings to the callback of a Home. -/
def userName : HomesEvent → Option (HomeID × String)
  | .userData home _ docs => (userName? docs).map (Prod.mk home)
  | _ => none

end HomesEvent

open Homes

section Step

variable {s t : Homes} {e : HomesEvent} {home : HomeID}

theorem take_eq {task : HomeTask} : s.take task = some t ↔
    task ∈ s.pending ∧ t = { s with pending := s.pending.erase task } := by
  rw [Homes.take, Option.ite_none_right_eq_some, Option.some.injEq, eq_comm (b := t)]

/-- What a step does to the stack, to the closures under way and to the app. -/
structure Homes.Effect (s t : Homes) (e : HomesEvent) : Prop where
  running : s.trapped = false
  taken : ∀ task, e.taken = some task → task ∈ s.pending
  pending : t.pending = (e.taken.map s.pending.erase).getD s.pending ++ e.issued
  issuer : ∀ task ∈ e.issued, task.home ∈ s.stack
  stack : ∀ h, h ∈ t.stack ↔ (h ∈ s.stack ∧ e ≠ .pop h) ∨ (e.pushes = true ∧ h = s.pushed)
  pushed : t.pushed = s.pushed + if e.pushes then 1 else 0
  pops : ∀ h, e = .pop h → h ∈ s.stack
  trapped : t.trapped = true ↔ ∃ h name, e.userName = some (h, name) ∧ t.alive h = false

theorem homes_effect (h : step s e = some t) : s.Effect t e := by
  unfold step at h
  split at h
  · contradiction
  · rename_i hrunning
    rw [Bool.not_eq_true] at hrunning
    cases e with
    | goHome =>
      cases h
      constructor <;> simp [HomesEvent.taken, HomesEvent.issued, HomesEvent.userName,
        HomesEvent.pushes, hrunning, or_comm]
    | viewDidAppear home currentUID =>
      simp only at h
      split at h
      · rename_i hstack
        cases h
        refine ⟨hrunning, by simp [HomesEvent.taken], rfl, fun task htask => ?_,
          by simp [HomesEvent.pushes], rfl, by simp, by simp [HomesEvent.userName, hrunning]⟩
        simp only [HomesEvent.issued, List.mem_append, Option.mem_toList, Option.map_eq_some_iff,
          List.mem_singleton] at htask
        rcases htask with ⟨uid, -, rfl⟩ | rfl
        · exact hstack
        · exact hstack
      · contradiction
    | commit home =>
      simp only at h
      split at h
      · rename_i hstack
        cases h
        constructor <;> simp [HomesEvent.taken, HomesEvent.issued, HomesEvent.userName,
          HomesEvent.pushes, hrunning, hstack, HomeTask.home]
      · contradiction
    | pop home =>
      simp only at h
      split at h
      · rename_i hstack
        cases h
        refine ⟨hrunning, by simp [HomesEvent.taken], by simp [HomesEvent.taken, HomesEvent.issued],
          by simp [HomesEvent.issued], fun k => ?_, rfl, fun k hk => ?_,
          by simp [HomesEvent.userName, hrunning]⟩
        · simp [HomesEvent.pushes, and_comm, eq_comm (a := k)]
        · cases hk
          exact hstack
      · contradiction
    | userData home uid docs =>
      simp only at h
      split at h
      · obtain ⟨u, hu, rfl⟩ := Option.map_eq_some_iff.mp h
        obtain ⟨hmem, rfl⟩ := take_eq.mp hu
        refine ⟨hrunning, by simp [HomesEvent.taken, hmem],
          by simp [HomesEvent.taken, HomesEvent.issued], by simp [HomesEvent.issued],
          by simp [HomesEvent.pushes], rfl, by simp, ?_⟩
        simp only [HomesEvent.userName]
        cases userName? docs with
        | none => simp
        | some name => simp [alive]
      · contradiction
    | ads home | removed home =>
      obtain ⟨hmem, rfl⟩ := take_eq.mp h
      constructor <;> simp [HomesEvent.taken, HomesEvent.issued, HomesEvent.userName,
        HomesEvent.pushes, hrunning, hmem]

theorem take_countP {task : HomeTask} {tasks : List HomeTask} (h : task ∈ tasks)
    (p : HomeTask → Bool) :
    (tasks.erase task).countP p + [task].countP p = tasks.countP p := by
  rw [← List.countP_append]
  exact List.perm_append_singleton task _ |>.trans (List.perm_cons_erase h).symm |>.countP_eq p

/-- A step counts a closure that keeps the Home as it sends it and as its answer comes. -/
theorem effect_kept (h : s.Effect t e) :
    t.pending.countP (HomeTask.keeps home) + [e].countP (HomesEvent.returns home) =
      s.pending.countP (HomeTask.keeps home) + [e].countP (HomesEvent.sends home) := by
  have hissued : e.issued.countP (HomeTask.keeps home) = [e].countP (HomesEvent.sends home) := by
    cases e with
    | viewDidAppear h currentUID =>
      cases currentUID <;> simp [HomesEvent.issued, HomesEvent.sends, HomeTask.keeps, List.countP_cons]
    | _ => simp [HomesEvent.issued, HomesEvent.sends, HomeTask.keeps, List.countP_cons]
  rw [h.pending, List.countP_append, hissued]
  cases htaken : e.taken with
  | none =>
    have hreturns : [e].countP (HomesEvent.returns home) = 0 := by
      cases e with
      | userData h uid docs | ads h | removed h => contradiction
      | _ => rfl
    rw [hreturns]
    rfl
  | some task =>
    have hcount := take_countP (h.taken task htaken) (HomeTask.keeps home)
    have hreturns : [e].countP (HomesEvent.returns home) = [task].countP (HomeTask.keeps home) := by
      cases e with
      | userData h uid docs | ads h | removed h =>
        cases htaken
        rfl
      | _ => contradiction
    rw [hreturns]
    simp only [Option.map_some, Option.getD_some]
    omega

/-- What the events so far say of a Home: it is on the stack unless it has been popped, and of the
closures that keep it those under way are the ones that have been sent and not answered. -/
structure Logged (home : HomeID) (fs : List HomesEvent) (s : Homes) : Prop where
  drawn : ∀ h ∈ s.stack, h < s.pushed
  waiting : ∀ task ∈ s.pending, task.home < s.pushed
  popped : ∀ h, .pop h ∈ fs → h < s.pushed
  stacked : home < s.pushed → (home ∈ s.stack ↔ .pop home ∉ fs)
  kept : s.pending.countP (HomeTask.keeps home) + fs.countP (HomesEvent.returns home) =
    fs.countP (HomesEvent.sends home)

theorem launch_logged (home : HomeID) : Logged home [] launch := by
  constructor <;> simp [launch]

theorem step_logged {fs : List HomesEvent} (hs : Logged home fs s) (h : step s e = some t) :
    Logged home (fs ++ [e]) t := by
  have heffect := homes_effect h
  have hgrows : s.pushed ≤ t.pushed := by
    rw [heffect.pushed]
    exact Nat.le_add_right _ _
  refine ⟨fun k hk => ?_, fun task htask => ?_, fun k hk => ?_, fun hhome => ?_, ?_⟩
  · rcases (heffect.stack k).mp hk with ⟨hold, -⟩ | ⟨hpush, rfl⟩
    · exact lt_of_lt_of_le (hs.drawn k hold) hgrows
    · simp [heffect.pushed, hpush]
  · rw [heffect.pending, List.mem_append] at htask
    refine lt_of_lt_of_le ?_ hgrows
    rcases htask with hold | hissued
    · cases htaken : e.taken with
      | none => exact hs.waiting task (by simpa [htaken] using hold)
      | some task' =>
        rw [htaken] at hold
        exact hs.waiting task (List.mem_of_mem_erase hold)
    · exact hs.drawn _ (heffect.issuer task hissued)
  · refine lt_of_lt_of_le ?_ hgrows
    rcases List.mem_append.mp hk with hold | hnew
    · exact hs.popped k hold
    · exact hs.drawn k (heffect.pops k (List.mem_singleton.mp hnew).symm)
  · rw [heffect.stack, List.mem_append, List.mem_singleton, not_or]
    by_cases hknown : home < s.pushed
    · rw [hs.stacked hknown]
      have hne : home ≠ s.pushed := hknown.ne
      simp [hne, eq_comm (a := e)]
    · -- The step has pushed this Home, which no event has popped.
      have hpush : e.pushes = true := by
        by_contra hpush
        rw [heffect.pushed, if_neg hpush, Nat.add_zero] at hhome
        exact hknown hhome
      rw [heffect.pushed, if_pos hpush] at hhome
      have hsame : home = s.pushed := le_antisymm (Nat.lt_succ_iff.mp hhome) (not_lt.mp hknown)
      refine ⟨fun _ => ⟨fun hpop => hknown (hs.popped home hpop), fun hpop => ?_⟩,
        fun _ => Or.inr ⟨hpush, hsame⟩⟩
      rw [← hpop] at hpush
      contradiction
  · have hkept : t.pending.countP (HomeTask.keeps home) + [e].countP (HomesEvent.returns home) =
        s.pending.countP (HomeTask.keeps home) + [e].countP (HomesEvent.sends home) :=
      effect_kept heffect
    have hold := hs.kept
    rw [List.countP_append, List.countP_append]
    omega

/-- A Home lives unless it has been popped and all closures that keep it have been answered. -/
theorem Logged.alive_iff {fs : List HomesEvent} (hs : Logged home fs s) (hknown : home < s.pushed) :
    s.alive home = true ↔ .pop home ∉ fs ∨
      fs.countP (HomesEvent.returns home) < fs.countP (HomesEvent.sends home) := by
  have hpending : s.pending.any (HomeTask.keeps home) = true ↔
      0 < s.pending.countP (HomeTask.keeps home) := by
    rw [List.any_eq_true, List.countP_pos_iff]
  have hkept := hs.kept
  rw [alive, Bool.or_eq_true, decide_eq_true_iff, hs.stacked hknown, hpending]
  refine or_congr_right ?_
  omega

/-- A step traps exactly when it brings a user name to a Home that has been popped and that no closure
keeps. -/
theorem trapped_iff {fs : List HomesEvent} (hs : Logged home fs s) (h : step s e = some t)
    {name : String} (hname : e.userName = some (home, name)) : t.trapped = false ↔
      .pop home ∉ fs ∨ fs.countP (HomesEvent.returns home) < fs.countP (HomesEvent.sends home) := by
  have heffect := homes_effect h
  cases e with
  | userData home' uid docs =>
    obtain ⟨_, hdocs, heq⟩ := Option.map_eq_some_iff.mp hname
    obtain rfl : home' = home := congrArg Prod.fst heq
    have hknown : home' < s.pushed := hs.waiting _ (heffect.taken _ rfl)
    have halive : t.alive home' = s.alive home' := by
      have ht := (step_logged hs h).alive_iff (by rw [heffect.pushed]; exact hknown)
      rw [Bool.eq_iff_iff, ht, hs.alive_iff hknown]
      simp [HomesEvent.returns, HomesEvent.sends]
    rw [← hs.alive_iff hknown, ← halive, ← not_iff_not, Bool.not_eq_false, Bool.not_eq_true,
      heffect.trapped, hname]
    constructor
    · rintro ⟨h, name', hsame, hdead⟩
      cases hsame
      exact hdead
    · exact fun hdead => ⟨home', name, rfl, hdead⟩
  | _ => contradiction

end Step

/-- No run traps exactly when each user name that comes in for a Home finds it on a navigation stack or
waiting for another answer: it has not been popped, or fewer answers to its ads queries and its
swipes have come in than it has sent. -/
theorem neverTrapped_iff (es : List HomesEvent) :
    Always step (fun s => s.trapped = false) launch es ↔
      ∀ fs e gs home name, es = fs ++ e :: gs → e.userName = some (home, name) →
        (run step launch (fs ++ [e])).isSome → .pop home ∉ fs ∨
          fs.countP (HomesEvent.returns home) < fs.countP (HomesEvent.sends home) := by
  have hlogged : ∀ home fs s, run step launch fs = some s → Logged home fs s := fun home fs s hrun =>
    run_history (P := Logged home) (fun _ _ _ _ hs h => step_logged hs h) (launch_logged home) hrun
  rw [always_iff_run]
  constructor
  · intro hsafe fs e gs home name hes hname hsome
    obtain ⟨t, ht⟩ := Option.isSome_iff_exists.mp hsome
    obtain ⟨s, hs, hlast⟩ := run_append.mp ht
    obtain ⟨_, hstep, hend⟩ := run_cons.mp hlast
    cases hend
    exact (trapped_iff (hlogged home fs s hs) hstep hname).mp
      (hsafe (fs ++ [e]) gs t (by simp [hes]) ht)
  · intro hwaits fs gs t hes hrun
    rcases List.eq_nil_or_concat' fs with rfl | ⟨fs, e, rfl⟩
    · cases hrun
      rfl
    · obtain ⟨s, hs, hlast⟩ := run_append.mp hrun
      obtain ⟨_, hstep, hend⟩ := run_cons.mp hlast
      cases hend
      by_contra htrapped
      rw [Bool.not_eq_false] at htrapped
      obtain ⟨home, name, hname, -⟩ := (homes_effect hstep).trapped.mp htrapped
      have hwait := hwaits fs e gs home name (by simp [hes]) hname (by simp [hrun])
      have hsafe := (trapped_iff (hlogged home fs s hs) hstep hname).mpr hwait
      simp [htrapped] at hsafe

/-- Alice leaves Home before her name comes in, and her ads come in first. -/
def profileLast : List HomesEvent :=
  [.goHome, .viewDidAppear 0 (some alice.uid.name), .pop 0, .ads 0,
    .userData 0 alice.uid.name (some [userInfo alice.uid.name "Alice"])]

/-- Her name comes in for a released Home. -/
theorem profileLast_traps : (∃ s, run step launch profileLast = some s ∧ s.trapped = true) ∧
    ¬Always step (fun s => s.trapped = false) launch profileLast := by
  obtain ⟨s, hrun, htrapped⟩ : ∃ s, run step launch profileLast = some s ∧ s.trapped = true :=
    ⟨_, rfl, rfl⟩
  refine ⟨⟨s, hrun, htrapped⟩, fun h => ?_⟩
  have hsafe := always_iff_run.mp h profileLast [] s (by simp) hrun
  simp [htrapped] at hsafe

end VoisinMalin
