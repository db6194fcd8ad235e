import VoisinMalin.Library.Run
import VoisinMalin.Firestore

/-! `AuthFirestore.signUp` and the lookup of a user that relies on it. A call creates an account, and
when it has one adds the document of `users` and reports success, without a callback for the
addition. So the calls of a run are all or nothing, once the backend has answered all of them, if and
only if no addition has failed. -/

namespace VoisinMalin

open EventMachine

/-- The document that `signUp` adds to `users`. -/
def userInfo (uid userName : String) : Fields :=
  dictionary [("uid", .string uid), ("username", .string userName)]

/-- `getUserData`, by the answer of its query: the callback gets the first document, and is not
called when there is none or the query has failed. -/
def getUserData (answer : Option (List Fields)) : Option Fields := answer.bind List.head?

/-- The user name that an answer brings to the callback of `bindUI`, which otherwise returns. -/
def userName? (answer : Option (List Fields)) : Option String :=
  (getUserData answer).bind fun userData => userData.string? "username"

structure Account where
  uid : String
  email : String
  password : String
deriving DecidableEq

/-- The arguments of a call of `signUp`. -/
structure SignUpCall where
  userName : String
  email : String
  password : String

/-- What a call of `signUp` waits for. -/
inductive SignUpStep where
  | createUser
  | addDocument (uid : String)

/-- A call of `signUp`: what it waits for, the value that its callback has got, and what it has
created. -/
structure CallState where
  call : Option SignUpCall
  pending : Option SignUpStep
  report : Option Bool
  account : Option Account
  document : Option Fields

/-- The accounts, the collection `users` and the calls of `signUp`, each under a number. -/
structure Registration where
  accounts : List Account
  users : List Fields
  calls : Nat → CallState

inductive SignUpEvent where
  | signUp (n : Nat) (call : SignUpCall)
  | createUser (n : Nat) (uid : Option String) -- `none` is an error
  | addDocument (n : Nat) (ok : Bool)

def SignUpEvent.number : SignUpEvent → Nat
  | .signUp n _ | .createUser n _ | .addDocument n _ => n

namespace Registration

def launch (accounts : List Account) (users : List Fields) : Registration where
  accounts := accounts
  users := users
  calls := fun _ => ⟨none, none, none, none, none⟩

def setCall (s : Registration) (n : Nat) (c : CallState) : Registration :=
  { s with calls := Function.update s.calls n c }

def step (s : Registration) : SignUpEvent → Option Registration
  | .signUp n call =>
    match (s.calls n).call with
    | none => some (s.setCall n { s.calls n with call := some call, pending := some .createUser })
    | some _ => none
  | .createUser n uid =>
    match (s.calls n).call, (s.calls n).pending, uid with
    | some _, some .createUser, none =>
      some (s.setCall n { s.calls n with pending := none, report := some false })
    | some call, some .createUser, some uid =>
      -- Firebase gives no two accounts one uid or one mail address.
      if s.accounts.all fun a => a.uid != uid && a.email != call.email then
        let a : Account := ⟨uid, call.email, call.password⟩
        some { s.setCall n { s.calls n with
            pending := some (.addDocument uid), report := some true, account := some a } with
          accounts := a :: s.accounts }
      else none
    | _, _, _ => none
  | .addDocument n ok =>
    match (s.calls n).call, (s.calls n).pending with
    | some call, some (.addDocument uid) =>
      if ok then
        let data := userInfo uid call.userName
        some { s.setCall n { s.calls n with pending := none, document := some data } with
          users := data :: s.users }
      else some (s.setCall n { s.calls n with pending := none })
    | _, _ => none

/-- The documents that the query of `getUserData` selects. -/
def usersOf (s : Registration) (uid : String) : List Fields :=
  s.users.filter (whereField "uid" uid)

/-- A call that reports success has its account, its document and an answer for `getUserData`, and
one that reports failure has created nothing. -/
structure AllOrNothing (s : Registration) (n : Nat) : Prop where
  success : (s.calls n).report = some true → ∃ call a, (s.calls n).call = some call ∧
    (s.calls n).account = some a ∧ a ∈ s.accounts ∧
    (∃ data ∈ s.users, data "uid" = some (.string a.uid) ∧
      data "username" = some (.string call.userName)) ∧
    ∀ answer, answer.Perm (s.usersOf a.uid) → ∃ data, getUserData (some answer) = some data ∧
      data "username" = some (.string call.userName)
  failure : (s.calls n).report = some false →
    (s.calls n).account = none ∧ (s.calls n).document = none

/-- Where a call stands. -/
inductive Phase (s : Registration) (n : Nat) : Prop
  | unused (state : s.calls n = ⟨none, none, none, none, none⟩)
  | creating (call : SignUpCall)
      (state : s.calls n = ⟨some call, some .createUser, none, none, none⟩)
  | refused (call : SignUpCall) (state : s.calls n = ⟨some call, none, some false, none, none⟩)
  | adding (call : SignUpCall) (a : Account) (mem : a ∈ s.accounts) (users : s.usersOf a.uid = [])
      (state : s.calls n = ⟨some call, some (.addDocument a.uid), some true, some a, none⟩)
  | added (call : SignUpCall) (a : Account) (mem : a ∈ s.accounts)
      (users : s.usersOf a.uid = [userInfo a.uid call.userName])
      (state : s.calls n = ⟨some call, none, some true, some a, some (userInfo a.uid call.userName)⟩)
  | lost (call : SignUpCall) (a : Account) (mem : a ∈ s.accounts) (users : s.usersOf a.uid = [])
      (state : s.calls n = ⟨some call, none, some true, some a, none⟩)

structure Sound (s : Registration) : Prop where
  phase : ∀ n, Phase s n
  distinct : ∀ n m a b, (s.calls n).account = some a → (s.calls m).account = some b →
    a.uid = b.uid → n = m
  enrolled : ∀ data ∈ s.users, ∀ uid, data "uid" = some (.string uid) → ∃ a ∈ s.accounts, a.uid = uid

variable {s t : Registration} {e : SignUpEvent} {n m : Nat}

@[simp] theorem setCall_calls (s : Registration) (n m : Nat) (c : CallState) :
    (s.setCall n c).calls m = if m = n then c else s.calls m := by
  simp [setCall, Function.update_apply]

theorem usersOf_add (s : Registration) (uid uid' userName : String) :
    (userInfo uid userName :: s.users).filter (whereField "uid" uid') =
      if uid = uid' then userInfo uid userName :: s.usersOf uid' else s.usersOf uid' := by
  have hwhere : whereField "uid" uid' (userInfo uid userName) = true ↔ uid = uid' := by
    rw [whereField_iff]
    simp [userInfo, dictionary]
  rw [List.filter_cons]
  simp only [hwhere, usersOf]

/-- No document has the uid of a new account. -/
theorem usersOf_new (hs : Sound s) {uid : String} (hnew : ∀ a ∈ s.accounts, a.uid ≠ uid) :
    s.usersOf uid = [] := by
  rw [usersOf, List.filter_eq_nil_iff]
  intro data hdata hwhere
  obtain ⟨a, ha, huid⟩ := hs.enrolled data hdata uid (whereField_iff.mp hwhere)
  exact hnew a ha huid

theorem Phase.account_mem (h : Phase s n) {a : Account} (ha : (s.calls n).account = some a) :
    a ∈ s.accounts := by
  cases h with
  | unused state | creating call state | refused call state => simp [state] at ha
  | adding call b mem users state | added call b mem users state | lost call b mem users state =>
    obtain rfl : b = a := by simpa [state] using ha
    exact mem

/-- A step about another call leaves a call where it stands. -/
theorem Phase.frame (h : Phase s n) (hcall : t.calls n = s.calls n)
    (haccounts : ∀ a ∈ s.accounts, a ∈ t.accounts)
    (husers : ∀ a, (s.calls n).account = some a → t.usersOf a.uid = s.usersOf a.uid) :
    Phase t n := by
  cases h with
  | unused state => exact .unused (hcall.trans state)
  | creating call state => exact .creating call (hcall.trans state)
  | refused call state => exact .refused call (hcall.trans state)
  | adding call a mem users state =>
    exact .adding call a (haccounts a mem) ((husers a (by rw [state])).trans users)
      (hcall.trans state)
  | added call a mem users state =>
    exact .added call a (haccounts a mem) ((husers a (by rw [state])).trans users)
      (hcall.trans state)
  | lost call a mem users state =>
    exact .lost call a (haccounts a mem) ((husers a (by rw [state])).trans users)
      (hcall.trans state)

/-- A step that only moves one call on. -/
theorem Sound.setCall (hs : Sound s) {c : CallState} (haccount : c.account = (s.calls n).account)
    (hphase : Phase (s.setCall n c) n) : Sound (s.setCall n c) := by
  have hsame : ∀ k, ((s.setCall n c).calls k).account = (s.calls k).account := by
    intro k
    rw [setCall_calls]
    split
    · rename_i hk
      rw [hk, haccount]
    · rfl
  refine ⟨fun m => ?_, fun k m a b ha hb => ?_, hs.enrolled⟩
  · by_cases hm : m = n
    · subst hm
      exact hphase
    · exact (hs.phase m).frame (by simp [hm]) (fun _ => id) (fun _ _ => rfl)
  · rw [hsame] at ha hb
    exact hs.distinct k m a b ha hb

/-- What a step does, by its event. -/
inductive Stepped (s t : Registration) : SignUpEvent → Prop
  | called {n : Nat} {call : SignUpCall} (new : (s.calls n).call = none)
      (state : t = s.setCall n { s.calls n with
        call := some call, pending := some .createUser }) : Stepped s t (.signUp n call)
  | refused {n : Nat} (waits : (s.calls n).pending = some .createUser)
      (state : t = s.setCall n { s.calls n with pending := none, report := some false }) :
      Stepped s t (.createUser n none)
  | created {n : Nat} {a : Account} (waits : (s.calls n).pending = some .createUser)
      (new : ∀ b ∈ s.accounts, b.uid ≠ a.uid)
      (state : t = { s.setCall n { s.calls n with
          pending := some (.addDocument a.uid), report := some true, account := some a } with
        accounts := a :: s.accounts }) : Stepped s t (.createUser n (some a.uid))
  | added {n : Nat} {uid : String} {call : SignUpCall} (known : (s.calls n).call = some call)
      (waits : (s.calls n).pending = some (.addDocument uid))
      (state : t = { s.setCall n { s.calls n with
          pending := none, document := some (userInfo uid call.userName) } with
        users := userInfo uid call.userName :: s.users }) : Stepped s t (.addDocument n true)
  | lost {n : Nat} {uid : String} (waits : (s.calls n).pending = some (.addDocument uid))
      (state : t = s.setCall n { s.calls n with pending := none }) :
      Stepped s t (.addDocument n false)

theorem step_stepped (h : step s e = some t) : Stepped s t e := by
  cases e with
  | signUp n call =>
    simp only [step] at h
    split at h
    · rename_i hnew
      exact .called hnew (Option.some.inj h).symm
    · contradiction
  | createUser n uid =>
    simp only [step] at h
    split at h
    · rename_i hwaits
      exact .refused hwaits (Option.some.inj h).symm
    · rename_i call uid hcall hwaits
      split at h
      · rename_i hfree
        simp only [List.all_eq_true, Bool.and_eq_true, bne_iff_ne] at hfree
        exact .created (a := ⟨uid, call.email, call.password⟩) hwaits (fun b hb => (hfree b hb).1)
          (Option.some.inj h).symm
      · contradiction
    · contradiction
  | addDocument n ok =>
    simp only [step] at h
    split at h
    · rename_i call uid hcall hwaits
      cases ok with
      | true => exact .added hcall hwaits (Option.some.inj h).symm
      | false => exact .lost hwaits (Option.some.inj h).symm
    · contradiction

theorem Phase.of_createUser (h : Phase s n) (hwaits : (s.calls n).pending = some .createUser) :
    ∃ call, s.calls n = ⟨some call, some .createUser, none, none, none⟩ := by
  cases h with
  | creating call state => exact ⟨call, state⟩
  | unused state | refused call state | adding call a mem users state
  | added call a mem users state | lost call a mem users state => simp [state] at hwaits

theorem Phase.of_addDocument {uid : String} (h : Phase s n)
    (hwaits : (s.calls n).pending = some (.addDocument uid)) :
    ∃ call a, a ∈ s.accounts ∧ a.uid = uid ∧ s.usersOf uid = [] ∧
      s.calls n = ⟨some call, some (.addDocument uid), some true, some a, none⟩ := by
  cases h with
  | adding call a mem users state =>
    obtain rfl : a.uid = uid := by simpa [state] using hwaits
    exact ⟨call, a, mem, rfl, users, state⟩
  | unused state | creating call state | refused call state
  | added call a mem users state | lost call a mem users state => simp [state] at hwaits

/-- A new account: its uid is that of no other account and of no document. -/
theorem Sound.create (hs : Sound s) {a : Account}
    (hwaits : (s.calls n).pending = some .createUser) (hnew : ∀ b ∈ s.accounts, b.uid ≠ a.uid) :
    Sound { s.setCall n { s.calls n with
        pending := some (.addDocument a.uid), report := some true, account := some a } with
      accounts := a :: s.accounts } := by
  obtain ⟨call, hstate⟩ := (hs.phase n).of_createUser hwaits
  have hother : ∀ m b, (s.calls m).account = some b → b.uid ≠ a.uid :=
    fun m b hb => hnew b ((hs.phase m).account_mem hb)
  refine ⟨fun m => ?_, fun k m b c hb hc hbc => ?_, fun data hdata i hi => ?_⟩
  · by_cases hm : m = n
    · subst hm
      exact .adding call a List.mem_cons_self (usersOf_new hs hnew) (by simp [hstate])
    · exact (hs.phase m).frame (by simp [hm]) (fun b hb => List.mem_cons_of_mem _ hb)
        (fun _ _ => rfl)
  · simp only [setCall_calls] at hb hc
    split at hb <;> split at hc
    · rename_i hk hm
      rw [hk, hm]
    · cases hb
      exact absurd hbc.symm (hother m c hc)
    · cases hc
      exact absurd hbc (hother k b hb)
    · exact hs.distinct k m b c hb hc hbc
  · obtain ⟨b, hb, huid⟩ := hs.enrolled data hdata i hi
    exact ⟨b, List.mem_cons_of_mem _ hb, huid⟩

/-- A new document: it is the only one of its uid. -/
theorem Sound.add (hs : Sound s) {uid : String} {call : SignUpCall}
    (hcall : (s.calls n).call = some call)
    (hwaits : (s.calls n).pending = some (.addDocument uid)) :
    Sound { s.setCall n { s.calls n with
        pending := none, document := some (userInfo uid call.userName) } with
      users := userInfo uid call.userName :: s.users } := by
  obtain ⟨call', a, hmem, rfl, husers, hstate⟩ := (hs.phase n).of_addDocument hwaits
  obtain rfl : call' = call := by simpa [hstate] using hcall
  have hsame : ∀ k, ((s.setCall n { s.calls n with
      pending := none, document := some (userInfo a.uid call'.userName) }).calls k).account =
      (s.calls k).account := by
    intro k
    rw [setCall_calls]
    split
    · rename_i hk
      rw [hk]
    · rfl
  refine ⟨fun m => ?_, fun k m b c hb hc => ?_, fun data hdata i hi => ?_⟩
  · by_cases hm : m = n
    · subst hm
      refine .added call' a hmem ?_ (by simp [hstate])
      exact (usersOf_add s a.uid a.uid call'.userName).trans (by rw [if_pos rfl, husers])
    · refine (hs.phase m).frame (by simp [hm]) (fun _ => id) fun b hb => ?_
      have hne : a.uid ≠ b.uid := fun huid =>
        hm (hs.distinct m n b a hb (by rw [hstate]) huid.symm)
      exact (usersOf_add s a.uid b.uid call'.userName).trans (if_neg hne)
  · exact hs.distinct k m b c ((hsame k).symm.trans hb) ((hsame m).symm.trans hc)
  · rcases List.mem_cons.mp hdata with rfl | hdata
    · exact ⟨a, hmem, Value.string.inj (Option.some.inj hi)⟩
    · exact hs.enrolled data hdata i hi

theorem step_sound (hs : Sound s) (h : step s e = some t) : Sound t := by
  cases step_stepped h with
  | @called n call new state =>
    subst state
    cases hs.phase n with
    | unused state => exact hs.setCall rfl (.creating call (by simp [state]))
    | _ => simp_all
  | @refused n waits state =>
    subst state
    obtain ⟨call, hstate⟩ := (hs.phase n).of_createUser waits
    exact hs.setCall rfl (.refused call (by simp [hstate]))
  | created waits new state => exact state ▸ hs.create waits new
  | added known waits state => exact state ▸ hs.add known waits
  | @lost n uid waits state =>
    subst state
    obtain ⟨call, a, hmem, rfl, husers, hstate⟩ := (hs.phase n).of_addDocument waits
    exact hs.setCall rfl (.lost call a hmem husers (by simp [hstate]))

/-- A call whose document has been refused, after it has reported success. -/
def Lost (s : Registration) (n : Nat) : Prop :=
  ∃ call a, s.calls n = ⟨some call, none, some true, some a, none⟩

theorem addDocument_lost (hs : Sound s) (h : step s (.addDocument n false) = some t) : Lost t n := by
  cases step_stepped h with
  | lost waits state =>
    subst state
    obtain ⟨call, a, -, -, -, hstate⟩ := (hs.phase n).of_addDocument waits
    exact ⟨call, a, by simp [hstate]⟩

/-- A step is about one call, which is new or waits for something, and only a refused addition leaves
a call that has reported success without a document and waits for nothing. -/
theorem step_calls (h : step s e = some t) : ∃ c, (∀ m, t.calls m = if m = e.number then c else
      s.calls m) ∧
    ((s.calls e.number).call = none ∨ (s.calls e.number).pending ≠ none) ∧
    (c.pending = none → c.report = some true → c.document = none →
      e = .addDocument e.number false) := by
  cases step_stepped h with
  | called new state =>
    subst state
    exact ⟨_, fun m => setCall_calls s _ m _, Or.inl new, by simp⟩
  | refused waits state | created waits _ state | added _ waits state =>
    subst state
    exact ⟨_, fun m => setCall_calls s _ m _, Or.inr (by simp [SignUpEvent.number, waits]), by simp⟩
  | lost waits state =>
    subst state
    exact ⟨_, fun m => setCall_calls s _ m _, Or.inr (by simp [SignUpEvent.number, waits]),
      fun _ _ _ => rfl⟩

theorem lost_stays (hlost : Lost s n) (h : step s e = some t) : Lost t n := by
  obtain ⟨call, a, hstate⟩ := hlost
  obtain ⟨c, hcalls, hwaits, -⟩ := step_calls h
  refine ⟨call, a, ?_⟩
  rw [hcalls n, if_neg, hstate]
  rintro rfl
  rw [hstate] at hwaits
  rcases hwaits with hnone | hsome
  · contradiction
  · exact hsome rfl

/-- Every event but a refused addition leaves a call lost only if it was so before. -/
theorem lost_before (h : step s e = some t) (he : ∀ n, e ≠ .addDocument n false)
    (hlost : Lost t n) : Lost s n := by
  obtain ⟨call, a, hstate⟩ := hlost
  obtain ⟨c, hcalls, -, hrefused⟩ := step_calls h
  rw [hcalls n] at hstate
  split at hstate
  · rw [hstate] at hrefused
    exact absurd (hrefused rfl rfl rfl) (he e.number)
  · exact ⟨call, a, hstate⟩

/-- Once the backend has answered, a call is all or nothing unless it is lost. -/
theorem allOrNothing_iff (hs : Sound s) (hsettled : (s.calls n).pending = none) :
    AllOrNothing s n ↔ ¬Lost s n := by
  constructor
  · rintro ⟨hsuccess, -⟩ ⟨call, a, hstate⟩
    obtain ⟨-, b, -, hb, -, ⟨data, hdata, huid, -⟩, -⟩ := hsuccess (by rw [hstate])
    cases hs.phase n with
    | lost call' b' mem users state =>
      obtain rfl : b' = b := by simpa [state] using hb
      rw [usersOf, List.filter_eq_nil_iff] at users
      exact users data hdata (whereField_iff.mpr huid)
    | _ => simp_all
  · intro hlost
    cases hs.phase n with
    | unused state => exact ⟨by simp [state], by simp [state]⟩
    | creating call state | adding call a mem users state => simp [state] at hsettled
    | refused call state => exact ⟨by simp [state], by simp [state]⟩
    | lost call a mem users state => exact absurd ⟨call, a, state⟩ hlost
    | added call a mem users state =>
      have hmem : userInfo a.uid call.userName ∈ s.usersOf a.uid := by simp [users]
      refine ⟨fun _ => ⟨call, a, by rw [state], by rw [state], mem,
        ⟨_, List.mem_of_mem_filter hmem, rfl, rfl⟩, fun answer hanswer => ?_⟩, by simp [state]⟩
      rw [users, List.perm_singleton] at hanswer
      exact ⟨_, by rw [hanswer]; rfl, rfl⟩

theorem launch_sound {accounts : List Account} {users : List Fields}
    (henrolled : ∀ data ∈ users, ∀ uid, data "uid" = some (.string uid) →
      ∃ a ∈ accounts, a.uid = uid) : Sound (launch accounts users) :=
  ⟨fun _ => .unused rfl, fun _ _ _ _ ha => by simp [launch] at ha, henrolled⟩

end Registration

open Registration

/-- When the backend has answered all calls of a run, each of them is all or nothing if and only if
the backend has refused no document. -/
theorem signUp_allOrNothing_iff {accounts : List Account} {users : List Fields}
    (henrolled : ∀ data ∈ users, ∀ uid, data "uid" = some (.string uid) →
      ∃ a ∈ accounts, a.uid = uid) {es : List SignUpEvent} {s : Registration}
    (hrun : run step (launch accounts users) es = some s)
    (hsettled : ∀ n, (s.calls n).pending = none) :
    (∀ n, AllOrNothing s n) ↔ ∀ n, .addDocument n false ∉ es := by
  have hstart := launch_sound henrolled
  have hs : Sound s := run_preserves (fun s e t h => step_sound h) hstart hrun
  simp only [fun n => allOrNothing_iff hs (hsettled n)]
  constructor
  · intro hnone n hmem
    obtain ⟨before, after, rfl⟩ := List.append_of_mem hmem
    obtain ⟨v, hbefore, hrest⟩ := run_append.mp hrun
    obtain ⟨x, hx, hafter⟩ := run_cons.mp hrest
    have hv : Sound v := run_preserves (fun s e t h => step_sound h) hstart hbefore
    have hlost : Lost s n := run_preserves (I := fun v => Lost v n)
      (fun v e t h => lost_stays h) (addDocument_lost hv hx) hafter
    exact hnone n hlost
  · intro hes n
    refine run_preserves_of (I := fun v => ¬Lost v n) (A := fun e => ∀ n, e ≠ .addDocument n false)
      (fun v e t hv he h hlost => hv (lost_before h he hlost)) ?_ ?_ hrun
    · rintro ⟨call, a, hstate⟩
      simp [launch] at hstate
    · rintro e he m rfl
      exact hes m he

/-- Alice's account and document. -/
def aliceEnrolled : Registration :=
  launch [⟨alice.uid.name, alice.mail, "azerty12"⟩] [userInfo alice.uid.name "Alice"]

def bobSignsUp (added : Bool) : List SignUpEvent :=
  [.signUp 0 ⟨"Bob", bob.mail, "azerty34"⟩, .signUp 1 ⟨"Alice", alice.mail, "azerty56"⟩,
    .createUser 1 none, .createUser 0 (some bob.uid.name), .addDocument 0 added]

/-- Bob signs up, and the second account for Alice's mail address is refused. -/
theorem bobSignsUp_allOrNothing : ∃ s, run step aliceEnrolled (bobSignsUp true) = some s ∧
    ∀ n, AllOrNothing s n := by
  obtain ⟨s, hrun, hsettled⟩ : ∃ s, run step aliceEnrolled (bobSignsUp true) = some s ∧
      ∀ n, (s.calls n).pending = none := by
    refine ⟨_, rfl, fun n => ?_⟩
    match n with
    | 0 | 1 | n + 2 => rfl
  refine ⟨s, hrun, (signUp_allOrNothing_iff (fun data hdata uid huid => ?_) hrun hsettled).mpr ?_⟩
  · rw [List.mem_singleton.mp hdata] at huid
    cases huid
    exact ⟨_, List.mem_singleton_self _, rfl⟩
  · simp [bobSignsUp]

/-- Bob is told that he has signed up, and the users have no document of his. -/
theorem bobSignsUp_lost : ∃ s, run step aliceEnrolled (bobSignsUp false) = some s ∧
    (s.calls 0).pending = none ∧ (s.calls 0).report = some true ∧
    s.usersOf bob.uid.name = [] ∧ ¬AllOrNothing s 0 := by
  refine ⟨_, rfl, rfl, rfl, by decide, fun h => ?_⟩
  obtain ⟨call, a, hcall, ha, -, ⟨data, hdata, huid, -⟩, -⟩ := h.success rfl
  cases ha
  rw [List.mem_singleton.mp hdata] at huid
  exact absurd (Value.string.inj (Option.some.inj huid)) (by decide)

end VoisinMalin
