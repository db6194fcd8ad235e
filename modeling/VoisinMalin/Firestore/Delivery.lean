import VoisinMalin.Firestore.Tasks
import VoisinMalin.Library.Run

/-! Runs of a client, across failures of the network, changes of the user and restarts of the app: no
assertion fails, the writes of each user are settled in their order, each once, nobody is told twice,
and from every state the writes of the user can be settled. -/

namespace VoisinMalin

open SortedMap EventMachine

namespace FirestoreClient

variable {c after : FirestoreClient} {e : Event} {es : List Event} {db : LevelDb}
  {user : AuthUser} {key : DocID}

theorem exists_step (h : c.Sound) (he : c.Occurs e) :
    ∃ after, step c e = some after ∧ after.Sound := by
  obtain ⟨after, hok, hsound, -⟩ := handle_ok h he
  exact ⟨after, by rw [step, hok]; rfl, hsound⟩

/-- What one step does: the sound client stays sound, those who wait see the actions of the task, no
document gets older, and only a sign-in changes the user. -/
theorem step_spec (h : c.Sound) (he : c.Occurs e) (hstep : step c e = some after) :
    after.Sound ∧ (∀ o, c.ledger.Mirrors o →
      ∃ o', run Outbox.step o (c.acts e) = some o' ∧ after.ledger.Mirrors o') ∧
    (∀ key, ¬e.Loses key →
      Supersedes (after.local_store.db.Get key) (c.local_store.db.Get key)) ∧
    after.current_user = e.signedIn c.current_user ∧
    after.is_network_enabled = e.connected c.is_network_enabled := by
  obtain ⟨next, hok, hsound, hgoes⟩ := handle_ok h he
  rw [step, hok] at hstep
  obtain rfl := Option.some.inj hstep
  exact ⟨hsound, fun o ho => hgoes.does o ⟨ho.pending, ho.told⟩, hgoes.supersedes, hgoes.user,
    hgoes.network⟩

theorem exists_run (h : c.Sound) (hoffered : Offered step Occurs c es) :
    ∃ after, run step c es = some after ∧ after.Sound :=
  hoffered.run (fun _ _ hs he => exists_step hs he) h

theorem run_sound (h : c.Sound) (hoffered : Offered step Occurs c es)
    (hrun : run step c es = some after) : after.Sound :=
  hoffered.along.run_preserves (I := Sound) (fun _ _ _ hs he hstep => (step_spec hs he hstep).1) h hrun

/-- A run of the app over the database that it finds: it starts for a user, and `es` come to it. -/
structure History (db : LevelDb) (user : AuthUser) (es : List Event) (c after : FirestoreClient) :
    Prop where
  consistent : db.Consistent
  positive : db.Positive
  start : Initialize db user [] = .ok c
  offered : Offered step Occurs c es
  taken : run step c es = some after

theorem History.first (h : History db user es c after) : c.Sound ∧ c.ledger =
    ⟨user, true, fun user => (db.of user).map fun batch => (batch, none), [], db.Get⟩ := by
  obtain ⟨first, hok, hrest⟩ := initialize_ok h.consistent h.positive user []
  obtain rfl := Except.ok.inj (hok.symm.trans h.start)
  exact hrest

theorem History.sound (h : History db user es c after) : after.Sound :=
  run_sound h.first.1 h.offered h.taken

theorem run_session (h : c.Sound) (hoffered : Offered step Occurs c es)
    (hrun : run step c es = some after) :
    after.current_user = es.foldl (fun user e => e.signedIn user) c.current_user ∧
      after.is_network_enabled = es.foldl (fun network e => e.connected network)
        c.is_network_enabled := by
  induction es generalizing c with
  | nil =>
    cases hrun
    exact ⟨rfl, rfl⟩
  | cons e es ih =>
    obtain ⟨next, hstep, hrest⟩ := run_cons.mp hrun
    obtain ⟨hsound, -, -, huser, hnetwork⟩ := step_spec h hoffered.1 hstep
    rw [List.foldl_cons, List.foldl_cons, ← huser, ← hnetwork]
    exact ih hsound (hoffered.2 next hstep) hrest

/-- Who is signed in and whether the network is enabled is what the last events about it say. -/
theorem History.session (h : History db user es c after) :
    after.current_user = es.foldl (fun user e => e.signedIn user) user ∧
      after.is_network_enabled = es.foldl (fun network e => e.connected network) true := by
  obtain ⟨hsound, hledger⟩ := h.first
  have huser : c.current_user = user := congrArg Ledger.user hledger
  have hnetwork : c.is_network_enabled = true := congrArg Ledger.network hledger
  have hsession := run_session hsound h.offered h.taken
  rwa [huser, hnetwork] at hsession

/-- A run leads through the state after its first events. -/
theorem History.split (h : History db user es c after) (n : ℕ) :
    ∃ mid, History db user (es.take n) c mid ∧ Offered step Occurs mid (es.drop n) ∧
      run step mid (es.drop n) = some after := by
  have hoffered := h.offered
  have hrun := h.taken
  rw [← List.take_append_drop n es] at hoffered hrun
  obtain ⟨mid, hmid, hrest⟩ := run_append.mp hrun
  exact ⟨mid, ⟨h.consistent, h.positive, h.start, hoffered.take, hmid⟩, hoffered.drop hmid, hrest⟩

theorem History.append {mid : FirestoreClient} {fs : List Event} (h : History db user es c mid)
    (hoffered : Offered step Occurs mid fs) (hrun : run step mid fs = some after) :
    History db user (es ++ fs) c after :=
  ⟨h.consistent, h.positive, h.start, h.offered.append h.taken hoffered,
    run_append.mpr ⟨mid, h.taken, hrun⟩⟩

theorem new_consistent : LevelDb.new.Consistent := by
  refine ⟨fun row hrow => absurd hrow List.not_mem_nil, fun user document id => ?_⟩
  constructor
  · exact fun h => absurd h (Finset.notMem_empty _)
  · rintro ⟨batch, hbatch, -⟩
    contradiction

theorem new_positive : LevelDb.new.Positive := fun _ hrow => absurd hrow List.not_mem_nil

/-- Events that may come at any time make a run. -/
theorem exists_history (es : List Event) (user : AuthUser) (hfree : ∀ e ∈ es, ∀ c, Occurs c e) :
    ∃ c after, History .new user es c after := by
  obtain ⟨c, hstart, hsound, -⟩ := initialize_ok new_consistent new_positive user []
  have hoffered : ∀ s, Offered step Occurs s es := by
    induction es with
    | nil => exact fun _ => trivial
    | cons e es ih =>
      exact fun s => ⟨hfree e List.mem_cons_self s,
        fun t _ => ih (fun f hf => hfree f (List.mem_cons_of_mem e hf)) t⟩
  obtain ⟨after, hrun, -⟩ := exists_run hsound (hoffered c)
  exact ⟨c, after, new_consistent, new_positive, hstart, hoffered c, hrun⟩

/-- Whether a run of a new app comes to its end, and what holds there, can be computed. -/
theorem exists_computed {P : FirestoreClient → Prop}
    (h : ∃ c ∈ (Initialize .new user []).toOption,
      Offered step Occurs c es ∧ ∃ after ∈ run step c es, P after) :
    ∃ c after, History .new user es c after ∧ P after := by
  obtain ⟨c, hstart, hoffered, after, hrun, hafter⟩ := h
  obtain ⟨first, hfirst, -⟩ := initialize_ok new_consistent new_positive user []
  rw [hfirst] at hstart
  cases hstart
  exact ⟨_, after, ⟨new_consistent, new_positive, hfirst, hoffered, hrun⟩, hafter⟩

/-- Alice deletes an ad without the network, Bob another one, and the app is started again. -/
def deletions : List Event :=
  [.DisableNetwork, .WriteMutations [.Delete 1 .None] 1, .HandleCredentialChange "bob",
    .WriteMutations [.Delete 2 .None] 2, .Restart "bob", .OnConnectivityChange]

theorem deletions_free : ∀ e ∈ deletions, ∀ c, Occurs c e := by
  simp [deletions, Occurs]

/-- Alice sets an ad and deletes another; the backend takes the first write and refuses the second one,
and then it says what it has of the ad. -/
def outcomes : List Event :=
  [.WriteMutations [.Set 1 .empty .None] 1, .WriteMutations [.Delete 2 .None] 2,
    .OnToken 0 .kErrorOk, .OnStreamRead (.read .None []), .OnStreamRead (.read (1, 0) [(1, 0)]),
    .OnStreamFinish .kErrorPermissionDenied,
    .ApplyRemoteEvent [(1, .ConvertToFoundDocument (2, 0) .empty)] (2, 0)]

theorem exists_outcomes : ∃ c after, History .new "alice" outcomes c after ∧
    after.called = [(1, .kErrorOk), (2, .kErrorPermissionDenied)] ∧
    (after.local_store.db.Get 1).version = (2, 0) ∧
    1 ∈ after.local_store.db.remote_keys (1, 0) :=
  exists_computed (by decide +kernel)

/-- The items of a ledger, with the calls so far as answers. -/
def Ledger.outbox (l : Ledger) : Outbox AuthUser MutationBatch StatusCallback Status :=
  ⟨l.pending, l.called.map fun call => (none, some call.1, call.2)⟩

theorem mirrors_outbox (l : Ledger) : l.Mirrors l.outbox := by
  refine ⟨rfl, ?_⟩
  show List.filterMap _ (l.called.map _) = l.called
  rw [List.filterMap_map]
  exact List.filterMap_some

/-- The tasks are simulated by what they do for those who wait. -/
theorem simulates_outbox : Simulates step Outbox.step Occurs acts
    (fun c o => c.Sound ∧ c.ledger.Mirrors o) := by
  rintro c e after o ⟨hsound, hmirrors⟩ he hstep
  obtain ⟨hsound', hdoes, -⟩ := step_spec hsound he hstep
  obtain ⟨o', hrun, hmirrors'⟩ := hdoes o hmirrors
  exact ⟨o', hrun, hsound', hmirrors'⟩

theorem mirrors_pendingOf {o : Outbox AuthUser MutationBatch StatusCallback Status}
    (h : c.ledger.Mirrors o) (user : AuthUser) : o.pendingOf user = c.local_store.db.of user := by
  rw [Outbox.pendingOf, h.pending]
  show ((c.local_store.db.of user).map _).map Prod.fst = _
  rw [List.map_map]
  exact List.map_id _

/-- No assertion of the write path fails, whatever the app, the network and the backend do meanwhile. -/
theorem assertions_hold (hconsistent : db.Consistent) (hpositive : db.Positive) (user : AuthUser) :
    ∃ c, Initialize db user [] = .ok c ∧ ∀ es, Offered step Occurs c es →
      ∃ after, run step c es = some after ∧ after.Sound := by
  obtain ⟨c, hok, hsound, -⟩ := initialize_ok hconsistent hpositive user []
  exact ⟨c, hok, fun es hoffered => exists_run hsound hoffered⟩

/-- The app starts for Bob over a database in which a write of Alice and one of Bob wait. -/
theorem assertions_hold_deletions : ∃ db : LevelDb, (db.of "alice").length = 1 ∧
    (db.of "bob").length = 1 ∧ ∃ c, Initialize db "bob" [] = .ok c ∧
      ∀ es, Offered step Occurs c es → ∃ after, run step c es = some after ∧ after.Sound := by
  obtain ⟨c, mid, h, halice, hbob⟩ : ∃ c mid, History .new "alice" deletions c mid ∧
      (mid.local_store.db.of "alice").length = 1 ∧ (mid.local_store.db.of "bob").length = 1 :=
    exists_computed (by decide +kernel)
  have hstore := h.sound.store
  exact ⟨_, halice, hbob, assertions_hold hstore.consistent hstore.positive "bob"⟩

/-- The batches of each user that were there or are posted are settled in their order, and the others
are still there; the handlers are told the outcomes of their batches. -/
theorem settles_inOrder (h : History db user es c after) :
    ∃ o, run Outbox.step ⟨fun user => (db.of user).map fun batch => (batch, none), []⟩
        (trace step acts c es) = some o ∧ after.called = o.told ∧
      ∀ user, o.settledOf user ++ after.local_store.db.of user =
        db.of user ++ Outbox.posted user (trace step acts c es) := by
  obtain ⟨hsound, hledger⟩ := h.first
  have hmirrors : c.ledger.Mirrors ⟨fun user => (db.of user).map fun batch => (batch, none), []⟩ := by
    rw [hledger]
    exact ⟨rfl, rfl⟩
  obtain ⟨o, htrace, -, hafter⟩ := simulates_outbox.run ⟨hsound, hmirrors⟩ h.offered.along h.taken
  refine ⟨o, htrace, hafter.told.symm, fun user => ?_⟩
  rw [← mirrors_pendingOf hafter, Outbox.run_account htrace]
  show [] ++ (((db.of user).map _).map Prod.fst) ++ _ = _
  rw [List.map_map, List.nil_append]
  exact congrArg (· ++ _) (List.map_id _)

theorem settles_inOrder_outcomes : ∃ c after o, History .new "alice" outcomes c after ∧
    run Outbox.step ⟨fun user => (LevelDb.new.of user).map fun batch => (batch, none), []⟩
      (trace step acts c outcomes) = some o ∧
    o.told = [(1, .kErrorOk), (2, .kErrorPermissionDenied)] := by
  obtain ⟨c, after, h, hcalled, -⟩ := exists_outcomes
  obtain ⟨o, htrace, htold, -⟩ := settles_inOrder h
  exact ⟨c, after, o, h, htrace, htold.symm.trans hcalled⟩

/-- The handler that a task gives to the client. -/
def Event.callback : Event → Option StatusCallback
  | .WriteMutations _ callback => some callback
  | _ => none

theorem tickets_acts (c : FirestoreClient) (e : Event) :
    Outbox.tickets (c.acts e) = e.callback.toList := by
  have hrejects : ∀ status, Outbox.tickets (c.rejects status) = [] := by
    intro status
    unfold rejects
    split
    · split <;> rfl
    · rfl
  cases e with
  | WriteMutations mutations callback => rw [acts]; split <;> rfl
  | OnStreamRead message =>
    cases message with
    | read commit_version mutation_results => rw [acts]; split <;> rfl
    | unreadable status => exact hrejects status
  | OnStreamFinish status => exact hrejects status
  | _ => rfl

theorem tickets_trace (hrun : run step c es = some after) :
    Outbox.tickets (trace step acts c es) = es.filterMap Event.callback := by
  induction es generalizing c with
  | nil => rfl
  | cons e es ih =>
    obtain ⟨next, hstep, hrest⟩ := run_cons.mp hrun
    rw [trace, hstep, Option.elim_some, Outbox.tickets, List.filterMap_append]
    show Outbox.tickets (c.acts e) ++ Outbox.tickets (trace step acts next es) = _
    rw [tickets_acts, ih hrest]
    cases hcallback : e.callback with
    | none => rw [List.filterMap_cons_none hcallback]; rfl
    | some callback => rw [List.filterMap_cons_some hcallback]; rfl

/-- A handler is called at most once, and only one that the app has given. -/
theorem calls_once (h : History db user es c after)
    (hdistinct : (es.filterMap Event.callback).Nodup) :
    (after.called.map Prod.fst).Nodup ∧
      ∀ call ∈ after.called, call.1 ∈ es.filterMap Event.callback := by
  obtain ⟨hsound, hledger⟩ := h.first
  obtain ⟨o, htrace, -, hafter⟩ :=
    simulates_outbox.run ⟨hsound, mirrors_outbox c.ledger⟩ h.offered.along h.taken
  have hwaiting : ∀ user, c.ledger.outbox.waiting user = [] := by
    intro user
    rw [hledger]
    show List.filterMap Prod.snd ((db.of user).map _) = []
    rw [List.filterMap_map]
    exact List.filterMap_eq_nil_iff.mpr fun _ _ => rfl
  have hanswered : c.ledger.outbox.answered = [] := by
    rw [hledger]
    rfl
  have hfresh : ∀ callback, c.ledger.outbox.Fresh callback := fun callback =>
    ⟨by rw [hanswered]; exact List.not_mem_nil, fun user => by rw [hwaiting]; exact List.not_mem_nil⟩
  have hcalled : o.answered = after.called.map Prod.fst := congrArg (List.map Prod.fst) hafter.told
  rw [← tickets_trace h.taken] at hdistinct ⊢
  refine ⟨?_, fun call hcall => ?_⟩
  · rw [← hcalled]
    refine (Outbox.run_once htrace ⟨?_, fun user => ?_, fun _ _ t ht => ?_⟩ (fun t _ => hfresh t)
      hdistinct).answered
    · rw [hanswered]
      exact List.nodup_nil
    · rw [hanswered, hwaiting]
      exact List.nodup_nil
    · rw [hwaiting] at ht
      contradiction
  · by_contra hnot
    refine (Outbox.run_fresh htrace (hfresh call.1) hnot).answered ?_
    rw [hcalled]
    exact List.mem_map_of_mem hcall

theorem calls_once_outcomes : ∃ c after, History .new "alice" outcomes c after ∧
    (after.called.map Prod.fst).Nodup ∧ after.called ≠ [] := by
  obtain ⟨c, after, h, hcalled, -⟩ := exists_outcomes
  have hcallbacks : outcomes.filterMap Event.callback = [1, 2] := rfl
  refine ⟨c, after, h, (calls_once h (by rw [hcallbacks]; decide)).1, ?_⟩
  rw [hcalled]
  exact List.cons_ne_nil _ _

theorem acts_sender {a : Action} (ha : a ∈ c.acts e) (user : AuthUser)
    (hother : c.current_user ≠ user) : a.sender ≠ some user := by
  have hmine : a.sender = none ∨ a.sender = some c.current_user := by
    have hrejects : ∀ status, a ∈ c.rejects status → a.sender = some c.current_user := by
      intro status hmem
      unfold rejects at hmem
      split at hmem
      · split at hmem
        · rw [List.mem_singleton.mp hmem]
          rfl
        · contradiction
      · contradiction
    cases e with
    | WriteMutations mutations callback =>
      rw [acts] at ha
      split at ha
      · exact Or.inl (by rw [List.mem_singleton.mp ha]; rfl)
      · exact Or.inr (by rw [List.mem_singleton.mp ha]; rfl)
    | OnStreamRead message =>
      cases message with
      | read commit_version mutation_results =>
        rw [acts] at ha
        split at ha
        · exact Or.inr (by rw [List.mem_singleton.mp ha]; rfl)
        · contradiction
      | unreadable status => exact Or.inr (hrejects status ha)
    | OnStreamFinish status => exact Or.inr (hrejects status ha)
    | Restart user => exact Or.inl (by rw [List.mem_singleton.mp ha]; rfl)
    | _ => contradiction
  rcases hmine with hnone | hsome
  · rw [hnone]
    exact Option.some_ne_none user |>.symm
  · rw [hsome]
    exact fun heq => hother (Option.some.inj heq)

/-- The writes of a user who is signed out stay as they are until the user signs in again. -/
theorem signedOut_waits {mid : FirestoreClient} {fs : List Event} {other : AuthUser}
    (h : History db user es c mid) (hoffered : Offered step Occurs mid fs)
    (hrun : run step mid fs = some after) (hother : mid.current_user ≠ other)
    (hstays : ∀ e ∈ fs, e ≠ .HandleCredentialChange other ∧ e ≠ .Restart other) :
    after.local_store.db.of other = mid.local_store.db.of other := by
  have hmid := h.sound
  clear h
  induction fs generalizing mid with
  | nil =>
    cases hrun
    rfl
  | cons e fs ih =>
    obtain ⟨next, hstep, hrest⟩ := run_cons.mp hrun
    obtain ⟨hsound, hdoes, -, huser, -⟩ := step_spec hmid hoffered.1 hstep
    obtain ⟨o, hacts, hmirrors⟩ := hdoes mid.ledger.outbox (mirrors_outbox mid.ledger)
    have hkept := Outbox.run_others hacts fun a ha => acts_sender ha other hother
    rw [mirrors_pendingOf hmirrors, mirrors_pendingOf (mirrors_outbox mid.ledger)] at hkept
    have hnext : next.current_user ≠ other := by
      obtain ⟨hchange, hrestart⟩ := hstays e List.mem_cons_self
      rw [huser]
      cases e with
      | HandleCredentialChange user => exact fun heq => hchange (congrArg _ heq)
      | Restart user => exact fun heq => hrestart (congrArg _ heq)
      | _ => exact hother
    exact (ih (hoffered.2 next hstep) hrest hnext
      (fun f hf => hstays f (List.mem_cons_of_mem e hf)) hsound).trans hkept

/-- Alice's deletion waits while Bob deletes an ad. -/
theorem signedOut_waits_alice : ∃ c mid after,
    History .new "alice" (deletions.take 3) c mid ∧ run step mid (deletions.drop 3) = some after ∧
      after.local_store.db.of "alice" = mid.local_store.db.of "alice" := by
  obtain ⟨c, after, h⟩ := exists_history deletions "alice" deletions_free
  obtain ⟨mid, h', hoffered, hrun⟩ := h.split 3
  refine ⟨c, mid, after, h', hrun, signedOut_waits h' hoffered hrun ?_ ?_⟩
  · rw [h'.session.1]
    decide
  · simp [deletions]

/-- What is cached of a document only gets newer, unless access to the document is lost. -/
theorem cache_supersedes {mid : FirestoreClient} {fs : List Event} (h : History db user es c mid)
    (hoffered : Offered step Occurs mid fs) (hrun : run step mid fs = some after)
    (hkept : ∀ e ∈ fs, ¬e.Loses key) :
    Supersedes (after.local_store.db.Get key) (mid.local_store.db.Get key) := by
  have hmid := h.sound
  clear h
  induction fs generalizing mid with
  | nil =>
    cases hrun
    exact .refl _
  | cons e fs ih =>
    obtain ⟨next, hstep, hrest⟩ := run_cons.mp hrun
    obtain ⟨hsound, -, hsupersedes, -⟩ := step_spec hmid hoffered.1 hstep
    exact (ih (hoffered.2 next hstep) hrest (fun f hf => hkept f (List.mem_cons_of_mem e hf))
      hsound).trans (hsupersedes key (hkept e List.mem_cons_self))

/-- The ad as it was acknowledged, and as the backend says it is later. -/
theorem cache_supersedes_outcomes : ∃ c mid after,
    History .new "alice" (outcomes.take 5) c mid ∧ run step mid (outcomes.drop 5) = some after ∧
      (after.local_store.db.Get 1).version = (2, 0) ∧
      Supersedes (after.local_store.db.Get 1) (mid.local_store.db.Get 1) := by
  obtain ⟨c, after, h, -, hversion, -⟩ := exists_outcomes
  obtain ⟨mid, h', hoffered, hrun⟩ := h.split 5
  have hkept : ∀ e ∈ outcomes.drop 5, ¬e.Loses 1 := by
    simp [outcomes, Event.Loses, AccessLost, MutableDocument.is_no_document,
      MutableDocument.ConvertToFoundDocument]
  exact ⟨c, mid, after, h', hrun, hversion, cache_supersedes h' hoffered hrun hkept⟩

section Settling

variable {l l' : Ledger} {status : Status} {lost : DocID → Prop}

/-- The outcome of a write takes it from those that are pending, and its handler is called. -/
theorem goes_settle (h : l.Goes [.settle user status] lost l') : ∃ item rest,
    l.pending user = item :: rest ∧ l'.pending = Function.update l.pending user rest ∧
      l'.called = l.called ++ (item.2.map fun callback => (callback, status)).toList := by
  obtain ⟨o, hrun, hmirrors⟩ := h.does l.outbox (mirrors_outbox l)
  obtain ⟨p, hstep, hrest⟩ := run_cons.mp hrun
  cases hrest
  rw [Outbox.step] at hstep
  split at hstep
  · contradiction
  · rename_i item rest hpending
    cases hstep
    refine ⟨item, rest, hpending, hmirrors.pending.symm, hmirrors.told.symm.trans ?_⟩
    have htold := (mirrors_outbox l).told
    unfold Outbox.told at htold ⊢
    rw [List.filterMap_append, htold]
    cases item.2 <;> rfl

/-- What the handlers are told when all that is pending for the user succeeds. -/
def Ledger.owed (l : Ledger) (user : AuthUser) : List (StatusCallback × Status) :=
  l.called ++ (l.pending user).filterMap fun item => item.2.map fun callback => (callback, .kErrorOk)

theorem owed_settle (h : l.Goes [.settle user .kErrorOk] lost l') : l'.owed user = l.owed user := by
  obtain ⟨item, rest, hpending, hpending', hcalled⟩ := goes_settle h
  rw [Ledger.owed, Ledger.owed, hpending, hpending', hcalled, Function.update_self,
    List.filterMap_cons, List.append_assoc]
  cases item.2 <;> rfl

theorem queue_pending (c : FirestoreClient) :
    c.queue = (c.ledger.pending c.current_user).map Prod.fst := by
  show c.local_store.db.of c.current_user = ((c.local_store.db.of c.current_user).map _).map Prod.fst
  rw [List.map_map]
  exact (List.map_id _).symm

/-- The answers of the authentication, the backend and the timer when nothing fails. -/
def Event.Succeeds : Event → Prop
  | .OnToken _ maybe_token => maybe_token = .kErrorOk
  | .OnStreamRead (.read _ _) => True
  | .BackoffElapsed => True
  | _ => False

/-- The steps that a stream has to take before it sends a write. -/
def phase (w : WriteStream) : ℕ :=
  match w.state with
  | .Backoff => 3
  | .Starting => 2
  | _ => if w.handshake_complete then 0 else 1

/-- The answers that it takes to settle the writes of the user. -/
def work (c : FirestoreClient) : ℕ := c.queue.length + phase c.write_stream

/-- A sound client with the network whose user's handlers are told `told` in the end. -/
structure Online (user : AuthUser) (told : List (StatusCallback × Status)) (c : FirestoreClient) :
    Prop where
  sound : c.Sound
  network : c.is_network_enabled = true
  current_user : c.current_user = user
  owed : c.ledger.owed user = told

/-- A stream that is started but has no handshake yet is brought on by the next answer. -/
theorem exists_quiet (h : c.Sound) (hstarted : c.write_stream.IsStarted = true)
    (hhandshake : c.write_stream.handshake_complete = false) :
    ∃ e w, (c.Occurs e ∧ e.Succeeds) ∧ step c e = some { c with write_stream := w } ∧
      ({ c with write_stream := w } : FirestoreClient).Sound ∧ phase w < phase c.write_stream := by
  cases hstate : c.write_stream.state with
  | Initial => simp [WriteStream.IsStarted, WriteStream.IsOpen, hstate] at hstarted
  | Error => simp [WriteStream.IsStarted, WriteStream.IsOpen, hstate] at hstarted
  | Backoff =>
    obtain ⟨w, hok, hstarting, hsound⟩ := backoffElapsed_ok h hstate
    refine ⟨.BackoffElapsed, w, ⟨hstate, trivial⟩, ?_, hsound, ?_⟩
    · rw [step, handle, hok]
      rfl
    · simp [phase, hstate, hstarting]
  | Starting =>
    obtain ⟨w, hok, hopen, hsound⟩ := resumeStart_ok h hstate
    have htoken : c.write_stream.close_count ∈ c.write_stream.token_requests := by
      refine List.count_pos_iff.mp ?_
      rw [h.stream.tokens, if_pos hstate]
      exact Nat.one_pos
    refine ⟨.OnToken c.write_stream.close_count .kErrorOk, w, ⟨htoken, rfl⟩, ?_, hsound, ?_⟩
    · rw [step, handle, hok]
      rfl
    · simp only [phase, hstate, hopen]
      split <;> omega
  | Open =>
    have hcalls := h.stream.calls
    rw [if_pos hstate, hhandshake] at hcalls
    obtain ⟨w, hok, hopen, hcomplete, hsound⟩ :=
      onHandshakeRead_ok .None [] h hstate hhandshake
    refine ⟨.OnStreamRead (.read .None []), w, ⟨⟨⟨0, hcalls⟩, fun _ _ hcomplete => ?_⟩, trivial⟩, ?_,
      hsound, ?_⟩
    · rw [hhandshake] at hcomplete
      contradiction
    · rw [step, handle, hok]
      rfl
    · simp [phase, hstate, hopen, hcomplete, hhandshake]

/-- The next answer after the handshake acknowledges the first write. -/
theorem exists_acknowledgement (h : c.Sound) (hsome : c.write_pipeline ≠ [])
    (hhandshake : c.write_stream.handshake_complete = true) :
    ∃ e after version results, (c.Occurs e ∧ e.Succeeds) ∧ step c e = some after ∧ after.Sound ∧
      c.ledger.Goes [.settle c.current_user .kErrorOk] (fun _ => False) after.ledger ∧
      c.Acknowledges version results after := by
  obtain ⟨batch, batches, hpipeline⟩ := List.exists_cons_of_ne_nil hsome
  have hcalls := h.stream.calls
  rw [if_pos (h.stream.handshake hhandshake), hhandshake, if_pos rfl, hpipeline,
    List.length_cons] at hcalls
  have hresults : ∀ b ∈ c.write_pipeline.head?,
      (batch.mutations.map fun _ => SnapshotVersion.None).length = b.mutations.length := by
    intro b hb
    rw [hpipeline, List.head?_cons, Option.mem_some_iff] at hb
    rw [List.length_map, hb]
  obtain ⟨after, hok, hrest⟩ := onWriteRead_ok .None (fun _ => False) h hcalls
    hhandshake hresults
  refine ⟨.OnStreamRead (.read .None (batch.mutations.map fun _ => .None)), after, _, _,
    ⟨⟨⟨_, hcalls⟩, fun b hb _ => hresults b hb⟩, trivial⟩, ?_, hrest⟩
  rw [step, handle, hok]
  rfl

/-- As long as a write of the user is left, the next answer brings the client on. -/
theorem exists_progress {told : List (StatusCallback × Status)} (hc : Online user told c)
    (hqueue : c.queue ≠ []) :
    ∃ e after, (c.Occurs e ∧ e.Succeeds) ∧ step c e = some after ∧ Online user told after ∧
      after.work < c.work := by
  obtain ⟨h, hnetwork, rfl, howed⟩ := hc
  have hsome : c.write_pipeline ≠ [] := by
    rw [h.pipeline, due, if_pos hnetwork, Ne, List.take_eq_nil_iff, not_or]
    exact ⟨by decide, hqueue⟩
  have hstarted := h.stream.started fun hzero => hsome (List.length_eq_zero_iff.mp hzero)
  cases hhandshake : c.write_stream.handshake_complete with
  | false =>
    obtain ⟨e, w, he, hstep, hsound, hphase⟩ := exists_quiet h hstarted hhandshake
    exact ⟨e, _, he, hstep, ⟨hsound, hnetwork, rfl, howed⟩, Nat.add_lt_add_left hphase _⟩
  | true =>
    obtain ⟨e, after, version, results, he, hstep, hsound, hgoes, hack⟩ :=
      exists_acknowledgement h hsome hhandshake
    refine ⟨e, after, he, hstep, ⟨hsound, hack.network.trans hnetwork, hack.current_user,
      (owed_settle hgoes).trans howed⟩, ?_⟩
    obtain ⟨item, rest, hpending, hpending', -⟩ := goes_settle hgoes
    have hless : after.queue.length < c.queue.length := by
      rw [queue_pending, queue_pending, hack.current_user, hpending', Function.update_self, hpending]
      simp
    have hopen := h.stream.handshake hhandshake
    have hphase : phase after.write_stream = phase c.write_stream := by
      simp only [phase, hack.stream.opened.mp hopen, hopen, ← hack.stream.handshake]
    rw [work, work, hphase]
    exact Nat.add_lt_add_right hless _

/-- From every state of a run, as long as the network is enabled, some run without a failure settles all
writes of the user, and their handlers are told so in the order of the writes. -/
theorem drains {mid : FirestoreClient} (h : History db user es c mid)
    (hnetwork : mid.is_network_enabled = true) :
    ∃ fs after, Offered step (fun c e => c.Occurs e ∧ e.Succeeds) mid fs ∧
      run step mid fs = some after ∧ after.local_store.db.of mid.current_user = [] ∧
      after.called = mid.called ++ (mid.pending mid.current_user).filterMap
        (fun item => item.2.map fun callback => (callback, .kErrorOk)) ∧
      fs.length ≤ (mid.local_store.db.of mid.current_user).length + 3 := by
  have hdone : ∃ fs after, Offered step (fun c e => c.Occurs e ∧ e.Succeeds) mid fs ∧
      run step mid fs = some after ∧
      Online mid.current_user (mid.ledger.owed mid.current_user) after ∧
      after.queue = [] ∧ fs.length ≤ mid.work :=
    exists_run_done (fun a ha hbusy => exists_progress ha hbusy) ⟨h.sound, hnetwork, rfl, rfl⟩
  obtain ⟨fs, after, hfs, hrun, ⟨-, -, huser, howed⟩, hempty, hlength⟩ := hdone
  have hnone : after.local_store.db.of mid.current_user = [] := huser ▸ hempty
  refine ⟨fs, after, hfs, hrun, hnone, ?_, hlength.trans (Nat.add_le_add_left ?_ _)⟩
  · have hpending : after.ledger.pending mid.current_user = [] := by
      show (after.local_store.db.of mid.current_user).map _ = []
      rw [hnone]
      rfl
    rw [Ledger.owed, hpending, List.filterMap_nil, List.append_nil] at howed
    exact howed
  · unfold phase
    split
    · exact le_rfl
    · omega
    · split <;> omega

theorem drains_deletions : ∃ c mid fs after, History .new "alice" deletions c mid ∧
    run step mid fs = some after ∧ after.local_store.db.of mid.current_user = [] := by
  obtain ⟨c, mid, h⟩ := exists_history deletions "alice" deletions_free
  obtain ⟨fs, after, -, hrun, hempty, -⟩ := drains h (by rw [h.session.2]; rfl)
  exact ⟨c, mid, fs, after, h, hrun, hempty⟩

/-- A stream that is started comes to its handshake, with the writes as they were. -/
theorem exists_handshake (h : c.Sound) (hstarted : c.write_stream.IsStarted = true) :
    ∃ es w, Offered step (fun c e => c.Occurs e ∧ e.Succeeds) c es ∧
      run step c es = some { c with write_stream := w } ∧ w.handshake_complete = true := by
  have hnext : ∀ a : FirestoreClient, (a.Sound ∧ a.write_stream.IsStarted = true ∧
        a = { c with write_stream := a.write_stream }) → ¬a.write_stream.handshake_complete = true →
      ∃ e b, (a.Occurs e ∧ e.Succeeds) ∧ step a e = some b ∧ (b.Sound ∧
        b.write_stream.IsStarted = true ∧ b = { c with write_stream := b.write_stream }) ∧
        phase b.write_stream < phase a.write_stream := by
    rintro a ⟨hsound, hon, hsame⟩ hnot
    have hhandshake : a.write_stream.handshake_complete = false := by simpa using hnot
    obtain ⟨e, w, he, hstep, hsound', hphase⟩ := exists_quiet hsound hon hhandshake
    refine ⟨e, _, he, hstep, ⟨hsound', hsound'.stream.started fun hzero => ?_, ?_⟩, hphase⟩
    · have hcomplete := (hsound.stream.needed hon hzero).2
      rw [hhandshake] at hcomplete
      contradiction
    · rw [hsame]
  obtain ⟨es, after, hes, hrun, ⟨-, -, hsame⟩, hcomplete, -⟩ :=
    exists_run_done hnext ⟨h, hstarted, rfl⟩
  exact ⟨es, after.write_stream, hes, hsame ▸ hrun, hcomplete⟩

end Settling

end FirestoreClient

end VoisinMalin
