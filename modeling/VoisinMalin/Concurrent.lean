import VoisinMalin.Agreement
import VoisinMalin.Settlement

/-! Favourite actions of several users at once. Each task under way came from one detail screen or
one list of favourites, and an action sees of the collection only the titles and the mark of its
user. So the events of one action in a run form a run of that action alone, and whatever the order in
which Firestore takes up the queries and writes of all users, the documents end as if one user had
acted after another, in any order. -/

namespace VoisinMalin

open EventMachine World

variable {Double : Type}

/-- Where a task under way came from. -/
inductive Origin where
  | screen (sc : ScreenID)
  | favorites (dev : DeviceID)
  | home (dev : DeviceID)
  | form (dev : DeviceID)
deriving DecidableEq

def Callback.origin : Callback → Origin
  | .checkFavorites sc | .favoriteButton sc | .delButtonPressed sc => .screen sc
  | .commit dev => .favorites dev

def Completion.origin : Completion → Origin
  | .misEnFavoris sc | .favorisRemoved sc | .annonceSuprimee sc => .screen sc
  | .commit dev => .favorites dev
  | .homeCommit dev => .home dev
  | .annonceSauvegardee dev => .form dev

def Task.origin : Task → Origin
  | .query _ k | .answer _ k => k.origin
  | .write _ c | .ack _ c => c.origin

section Origin

variable {w u : World Double} {e : Event Double} {t t' : Task}

/-- What follows from a task has its origin. -/
theorem issued_origin (htaken : e.taken = some t) (h : t' ∈ w.issued e) :
    t'.origin = t.origin := by
  cases mem_issued h <;> cases htaken <;> rfl

/-- A screen is told a flag by its own tasks only. -/
theorem flagAfter_origin {sc : ScreenID} {flag : Option Bool} (htaken : e.taken = some t)
    (h : t.origin ≠ .screen sc) : flagAfter sc flag e = flag := by
  cases e with
  | deliver t' =>
    cases htaken
    cases t with
    | answer ids k =>
      cases k with
      | checkFavorites sc' =>
        have hne : sc ≠ sc' := fun hsc => h (by rw [hsc]; rfl)
        simp [flagAfter, hne]
      | _ => rfl
    | ack ok c =>
      cases ok with
      | false => rfl
      | true =>
        cases c with
        | misEnFavoris sc' | favorisRemoved sc' =>
          have hne : sc ≠ sc' := fun hsc => h (by rw [hsc]; rfl)
          simp [flagAfter, hne]
        | _ => rfl
    | _ => rfl
  | viewDidLoad | viewDidAppear | favoriteButton | delButtonPressed | commit | homeCommit
  | publishButton | signIn | signOut => contradiction
  | _ => rfl

theorem progresses_taken (he : e.progresses = true) : ∃ t, e.taken = some t := by
  cases e <;> first | exact ⟨_, rfl⟩ | contradiction

theorem progresses_session (he : e.progresses = true) (h : step w e = some u) :
    u.session = w.session := by
  refine session_step h ?_
  cases e <;> first | rfl | contradiction

theorem progresses_loads (he : e.progresses = true) (sc : ScreenID) : e.loads sc = none := by
  cases e <;> first | rfl | contradiction

/-- A step of what is under way tells no other screen anything. -/
theorem screens_origin {sc : ScreenID} (he : e.progresses = true) (h : step w e = some u)
    (htaken : e.taken = some t) (hother : t.origin ≠ .screen sc) : u.screens sc = w.screens sc := by
  rw [(step_effect h).screens sc, progresses_loads he, Option.none_or]
  cases w.screens sc with
  | none => rfl
  | some s => rw [Option.map_some, flagAfter_origin htaken hother]

end Origin

/-- A favourite action: a press on a detail screen, in the state that it finds the screen in, or a
swipe in the list of favourites on a device. -/
inductive Act (Double : Type) where
  | press (sc : ScreenID) (s : Screen Double) (user : User)
  | swipe (dev : DeviceID) (ad : DefaultAds Double) (user : User)

namespace Act

def user : Act Double → User
  | .press _ _ user | .swipe _ _ user => user

def ad : Act Double → DefaultAds Double
  | .press _ s _ => s.demoAd
  | .swipe _ ad _ => ad

def adds : Act Double → Bool
  | .press _ s _ => s.adds
  | .swipe _ _ _ => false

def event : Act Double → Event Double
  | .press sc _ _ => .favoriteButton sc
  | .swipe dev ad _ => .commit dev ad

def callback : Act Double → Callback
  | .press sc _ _ => .favoriteButton sc
  | .swipe dev _ _ => .commit dev

def origin (a : Act Double) : Origin := a.callback.origin

/-- The action is possible in `w`: its user is signed in on its device. -/
def Ready (w : World Double) : Act Double → Prop
  | .press sc s user => w.screens sc = some s ∧ w.session s.device = some user
  | .swipe dev _ user => w.session dev = some user

/-- What the action makes of a document. -/
def mark (a : Act Double) (data : Fields) : Fields :=
  if whereField K.titleField a.ad.title data = true then
    Function.update data a.user.uid.name (markValue a.adds)
  else data

/-- What the action sees of a document: its title and the mark of its user. -/
def sees (a : Act Double) (data : Fields) : Option Value × Option Value :=
  (data K.titleField, data a.user.uid.name)

/-- The action without any other. -/
def operation {w : World Double} (a : Act Double) (h : a.Ready w) : Operation w :=
  match a, h with
  | .press sc s _, h => favoriteButton w sc s h.1
  | .swipe dev ad _, _ => VoisinMalin.commit w dev ad

end Act

section Operation

variable {w x : World Double} {a : Act Double} {t : Task} {es : List (Event Double)}

theorem Act.favouriteAction (h : a.Ready w) : FavouriteAction w a.user a.ad a.adds a.event := by
  cases a with
  | press sc s user => exact .press h.1 h.2
  | swipe dev ad user => exact .swipe ad h

/-- What an action has under way in `v`: its writes are to documents that are there. -/
inductive Act.Brings (a : Act Double) (v : World Double) : Task → Prop
  | query : a.Brings v (.query ⟨a.ad.title, none⟩ a.callback)
  | answer (ids : List DocID) : a.Brings v (.answer ids a.callback)
  | write {id : DocID} {c : Completion} (origin : c.origin = a.origin) (there : id ∈ v.ads) :
      a.Brings v (.write (markWrite a.adds a.user.uid id) c)
  | ack (ok : Bool) {c : Completion} (origin : c.origin = a.origin) : a.Brings v (.ack ok c)

theorem Act.Brings.origin (h : a.Brings w t) : t.origin = a.origin := by
  cases h with
  | query | answer ids => rfl
  | write origin there | ack ok origin => exact origin

theorem Operation.stage_run {op : Operation w} (hidle : w.pending = [])
    (hrun : run step w (op.event :: es) = some x) (hes : ∀ e ∈ es, e.progresses = true) :
    op.Stage x := by
  obtain ⟨v, hv, hrest⟩ := run_cons.mp hrun
  rw [op.asks] at hv
  cases hv
  have hstart : op.Stage (w.issue [.query op.query op.callback]) :=
    .asked rfl rfl rfl (by simp [hidle])
  exact run_preserves_of (A := fun e : Event Double => e.progresses = true)
    (fun _ _ _ h he hstep => Operation.stage_step h he hstep) hstart hes hrest

/-- The action as an operation: its parts are those of the action. -/
structure Act.Parts (a : Act Double) (op : Operation w) : Prop where
  event : op.event = a.event
  query : op.query = ⟨a.ad.title, none⟩
  callback : op.callback = a.callback
  completion : op.completion.origin = a.origin
  write : op.write = markWrite a.adds a.user.uid
  keeps : ∀ data, (op.update data).isSome

theorem Act.operation_parts (h : a.Ready w) : a.Parts (a.operation h) := by
  cases a with
  | press sc s user =>
    refine ⟨rfl, rfl, rfl, ?_, ?_, fun _ => rfl⟩
    · show (if s.adds then Completion.misEnFavoris sc else .favorisRemoved sc).origin = _
      split <;> rfl
    · show markWrite s.adds (markOrUnknown (w.session s.device)) = _
      rw [h.2]
      rfl
  | swipe dev ad user =>
    refine ⟨rfl, rfl, rfl, rfl, ?_, fun _ => rfl⟩
    show markWrite false (markOrUnknown (w.session dev)) = _
    rw [show w.session dev = some user from h]
    rfl

theorem Act.brings_of_run (h : a.Ready w) (hidle : w.pending = [])
    (hrun : run step w (a.event :: es) = some x) (hes : ∀ e ∈ es, e.progresses = true)
    (ht : t ∈ x.pending) : a.Brings x t := by
  have hparts := a.operation_parts h
  rw [← hparts.event] at hrun
  cases Operation.stage_run hidle hrun hes with
  | asked ads session screens pending =>
    rw [pending, List.mem_singleton] at ht
    rw [ht, hparts.query, hparts.callback]
    exact .query
  | answered ids nodup selected ads session screens pending =>
    rw [pending, List.mem_singleton] at ht
    rw [ht, hparts.callback]
    exact .answer ids
  | writing ids selected tasks once docs =>
    rcases tasks t ht with ⟨id, hid, rfl⟩ | ⟨ok, rfl⟩
    · rw [Operation.task, hparts.write]
      refine .write hparts.completion ?_
      obtain ⟨data, hdata, -⟩ := Query.mem_ids.mp (selected ▸ List.mem_toFinset.mpr hid)
      rw [← Finmap.lookup_isSome, docs id, hdata]
      split
      · exact hparts.keeps data
      · rfl
    · exact .ack ok hparts.completion

end Operation

/-- The world `x` of an action alone is `v` as far as the action is concerned. -/
structure Act.Sees (a : Act Double) (v x : World Double) : Prop where
  session : x.session = v.session
  screens : ∀ sc, a.origin = .screen sc → x.screens sc = v.screens sc
  pending : x.pending = v.pending.filter fun t => t.origin = a.origin
  ads : ∀ id, (x.ads.lookup id).map a.sees = (v.ads.lookup id).map a.sees

section Sees

variable {v v' x : World Double} {a b : Act Double} {e : Event Double} {t : Task} {id : DocID}

theorem Act.Sees.mem_ads (h : a.Sees v x) : id ∈ x.ads ↔ id ∈ v.ads := by
  have hsame := congrArg Option.isSome (h.ads id)
  rw [Option.isSome_map, Option.isSome_map] at hsame
  rw [← Finmap.lookup_isSome, ← Finmap.lookup_isSome, hsame]

theorem Act.Sees.mem_pending (h : a.Sees v x) :
    t ∈ x.pending ↔ t ∈ v.pending ∧ t.origin = a.origin := by
  rw [h.pending, List.mem_filter, decide_eq_true_iff]

theorem Act.Sees.brings (h : a.Sees v x) (ht : a.Brings x t) : a.Brings v t := by
  cases ht with
  | query => exact .query
  | answer ids => exact .answer ids
  | write origin there => exact .write origin (h.mem_ads.mp there)
  | ack ok origin => exact .ack ok origin

/-- The query of an action finds the same documents. -/
theorem Act.Sees.ids (h : a.Sees v x) :
    (Query.mk a.ad.title none).ids x.ads = (Query.mk a.ad.title none).ids v.ads := by
  have hselects : ∀ data : Fields, (Query.mk a.ad.title none).selects data = true ↔
      (a.sees data).1 = some (.string a.ad.title) := by
    intro data
    simp [Query.selects, whereField_iff, Act.sees]
  ext id
  simp only [Query.mem_ids, hselects]
  have hads := h.ads id
  cases hx : x.ads.lookup id <;> cases hv : v.ads.lookup id <;> simp_all

/-- A favourite write leaves what an action of another user sees. -/
theorem sees_update {data : Fields} {value : Option Value} (h : a.user.uid ≠ b.user.uid) :
    a.sees (Function.update data b.user.uid.name value) = a.sees data := by
  have hkey : a.user.uid.name ≠ b.user.uid.name := fun hname => h (MarkKey.eq_of_name hname)
  rw [Act.sees, update_mark (by decide), Function.update_of_ne hkey]
  rfl

theorem sees_own (data : Fields) : a.sees (Function.update data a.user.uid.name (markValue a.adds)) =
    (data K.titleField, markValue a.adds) := by
  rw [Act.sees, update_mark (by decide), Function.update_self]

/-- The action alone issues what it issues among the others. -/
theorem Act.Sees.issued (h : a.Sees v x) (ht : a.Brings v t) (htaken : e.taken = some t) :
    x.issued e = v.issued e := by
  cases e with
  | apply wr c =>
    cases htaken
    cases ht with
    | write origin there =>
      obtain ⟨data, hdata⟩ := Finmap.mem_iff.mp there
      obtain ⟨data', hdata'⟩ := Finmap.mem_iff.mp (h.mem_ads.mpr there)
      obtain ⟨_, happly, -⟩ := markWrite_apply a.adds a.user.uid hdata
      obtain ⟨_, happly', -⟩ := markWrite_apply a.adds a.user.uid hdata'
      simp [World.issued, happly, happly']
  | deliver t' =>
    cases htaken
    cases ht with
    | query | write | ack => rfl
    | answer ids =>
      cases a with
      | press sc s user =>
        simp only [World.issued, Act.callback, answerWrites, h.screens sc rfl, h.session]
      | swipe dev ad user => simp only [World.issued, Act.callback, answerWrites, h.session]
  | viewDidLoad | viewDidAppear | favoriteButton | delButtonPressed | commit | homeCommit
  | publishButton | signIn | signOut => contradiction
  | evaluate q k ids => rfl
  | fail t' => cases t' <;> rfl

/-- A step of an action is a step of the action alone. -/
theorem Act.Sees.enabled (h : a.Sees v x) (ht : a.Brings v t) (he : e.progresses = true)
    (htaken : e.taken = some t) (hstep : step v e = some v') : ∃ x', step x e = some x' := by
  have hmem := h.mem_pending.mpr ⟨(step_effect hstep).taken t htaken, ht.origin⟩
  have htake : x.take t = some { x with pending := x.pending.erase t } :=
    take_eq_some.mpr ⟨hmem, rfl⟩
  cases e with
  | evaluate q k ids =>
    cases htaken
    cases ht with
    | query =>
      simp only [step] at hstep
      split at hstep
      · rename_i hids
        exact ⟨_, by rw [step, if_pos ⟨hids.1, hids.2.trans h.ids.symm⟩, htake]; rfl⟩
      · contradiction
  | apply wr c =>
    cases htaken
    exact ⟨_, by rw [step, htake]; rfl⟩
  | deliver t' =>
    cases htaken
    cases t with
    | query q k | write wr c => contradiction
    | answer ids k | ack ok c => exact ⟨_, by rw [step, htake]; rfl⟩
  | _ => contradiction

theorem Act.Sees.own (h : a.Sees v x) (ht : a.Brings v t) (he : e.progresses = true)
    (htaken : e.taken = some t) (hstep : step v e = some v') :
    ∃ x', step x e = some x' ∧ a.Sees v' x' := by
  obtain ⟨x', hx'⟩ := h.enabled ht he htaken hstep
  refine ⟨x', hx', ?_, fun sc hsc => ?_, ?_, fun id => ?_⟩
  · rw [progresses_session he hx', progresses_session he hstep, h.session]
  · rw [(step_effect hx').screens sc, (step_effect hstep).screens sc, h.screens sc hsc]
  · have hissued : (v.issued e).filter (fun t => t.origin = a.origin) = v.issued e := by
      refine List.filter_eq_self.mpr fun t' ht' => decide_eq_true ?_
      rw [issued_origin htaken ht', ht.origin]
    rw [(step_effect hx').pending, (step_effect hstep).pending, htaken, h.issued ht htaken]
    simp only [Option.map_some, Option.getD_some, List.filter_append, hissued, h.pending,
      List.erase_filter]
  · by_cases happly : ∃ wr c, e = .apply wr c
    · obtain ⟨wr, c, rfl⟩ := happly
      cases htaken
      cases ht with
      | @write written _ origin there =>
        obtain ⟨data, hdata, hads⟩ := step_mark there hstep
        obtain ⟨data', hdata', hads'⟩ := step_mark (h.mem_ads.mpr there) hx'
        have hsame := h.ads written
        rw [hdata, hdata', Option.map_some, Option.map_some, Option.some.injEq] at hsame
        rw [hads, hads']
        split
        · rw [Option.map_some, Option.map_some, sees_own, sees_own]
          rw [show data' K.titleField = data K.titleField from congrArg Prod.fst hsame]
        · exact h.ads id
    · rw [(step_effect hx').ads fun wr c he => happly ⟨wr, c, he⟩,
        (step_effect hstep).ads fun wr c he => happly ⟨wr, c, he⟩]
      exact h.ads id

/-- A step of another user's action leaves what an action sees. -/
theorem Act.Sees.other (h : a.Sees v x) (ht : b.Brings v t) (hne : a.user.uid ≠ b.user.uid)
    (horigin : a.origin ≠ b.origin) (he : e.progresses = true) (htaken : e.taken = some t)
    (hstep : step v e = some v') : a.Sees v' x := by
  have hforeign : t.origin ≠ a.origin := fun hsame => horigin (hsame.symm.trans ht.origin)
  refine ⟨?_, fun sc hsc => ?_, ?_, fun id => ?_⟩
  · rw [progresses_session he hstep, h.session]
  · rw [screens_origin he hstep htaken (fun hsame => hforeign (hsame.trans hsc.symm)),
      h.screens sc hsc]
  · have hissued : (v.issued e).filter (fun t => t.origin = a.origin) = [] := by
      refine List.filter_eq_nil_iff.mpr fun t' ht' => ?_
      rw [decide_eq_true_iff, issued_origin htaken ht']
      exact hforeign
    rw [(step_effect hstep).pending, htaken]
    simp only [Option.map_some, Option.getD_some, List.filter_append, hissued, List.append_nil,
      ← List.erase_filter]
    rw [List.erase_of_not_mem fun hmem => hforeign (by simpa using (List.mem_filter.mp hmem).2),
      h.pending]
  · by_cases happly : ∃ wr c, e = .apply wr c
    · obtain ⟨wr, c, rfl⟩ := happly
      cases htaken
      cases ht with
      | write origin there =>
        obtain ⟨data, hdata, hads⟩ := step_mark there hstep
        rw [hads, h.ads id]
        split
        · rename_i hid
          rw [hid, hdata, Option.map_some, Option.map_some, sees_update hne]
        · rfl
    · rw [(step_effect hstep).ads fun wr c he => happly ⟨wr, c, he⟩]
      exact h.ads id

end Sees

/-- The fields of a document that no action writes. -/
def otherFields (acts : List (Act Double)) (data : Fields) : Fields := fun field =>
  if field ∈ acts.map fun a => a.user.uid.name then none else data field

/-- Where the actions `acts` in `w` stand, of which `asked` have been taken: what each action sees is
the world that it has reached alone. -/
structure Acting (w : World Double) (acts : List (Act Double)) (asked : List (Event Double))
    (v : World Double) : Prop where
  tasks : ∀ t ∈ v.pending, ∃ a ∈ acts, a.event ∈ asked ∧ t.origin = a.origin
  waiting : ∀ a ∈ acts, a.event ∉ asked → a.Sees v w
  started : ∀ a ∈ acts, a.event ∈ asked → ∃ es x, (∀ e ∈ es, e.progresses = true) ∧
    run step w (a.event :: es) = some x ∧ a.Sees v x
  rest : ∀ id, (v.ads.lookup id).map (otherFields acts) = (w.ads.lookup id).map (otherFields acts)

/-- Actions that are possible in `w` and that no two users with one uid take. -/
structure Independent (w : World Double) (acts : List (Act Double)) : Prop where
  ready : ∀ a ∈ acts, a.Ready w
  users : acts.Pairwise fun a b => a.user.uid ≠ b.user.uid

section Acting

variable {w v v' : World Double} {acts : List (Act Double)} {asked : List (Event Double)}
  {a b : Act Double} {e : Event Double}

theorem Independent.uid_ne (h : Independent w acts) (ha : a ∈ acts) (hb : b ∈ acts) (hne : a ≠ b) :
    a.user.uid ≠ b.user.uid := by
  have hsymm : Std.Symm fun a b : Act Double => a.user.uid ≠ b.user.uid :=
    ⟨fun _ _ hab => hab.symm⟩
  exact h.users.forall ha hb hne

theorem Independent.origin_ne (h : Independent w acts) (ha : a ∈ acts) (hb : b ∈ acts)
    (hne : a ≠ b) : a.origin ≠ b.origin := by
  intro horigin
  refine h.uid_ne ha hb hne ?_
  have hreadyA := h.ready a ha
  have hreadyB := h.ready b hb
  cases a with
  | press sc s user =>
    cases b with
    | press sc' s' user' =>
      obtain rfl : sc = sc' := Origin.screen.inj horigin
      have hs := hreadyA.1.symm.trans hreadyB.1
      cases hs
      have huser := hreadyA.2.symm.trans hreadyB.2
      cases huser
      rfl
    | swipe dev ad user' => cases horigin
  | swipe dev ad user =>
    cases b with
    | press sc s user' => cases horigin
    | swipe dev' ad' user' =>
      obtain rfl : dev = dev' := Origin.favorites.inj horigin
      have huser := Eq.symm (show w.session dev = some user from hreadyA) |>.trans hreadyB
      cases huser
      rfl

theorem Independent.event_inj (h : Independent w acts) (ha : a ∈ acts) (hb : b ∈ acts)
    (hevent : a.event = b.event) : a = b := by
  by_contra hne
  refine h.origin_ne ha hb hne ?_
  cases a <;> cases b <;> cases hevent <;> rfl

/-- What is under way comes from an action that has it under way alone. -/
theorem Acting.brings (h : Acting w acts asked v) (hacts : Independent w acts)
    (hidle : w.pending = []) {t : Task} (ht : t ∈ v.pending) :
    ∃ b ∈ acts, b.event ∈ asked ∧ b.Brings v t := by
  obtain ⟨b, hb, hasked, horigin⟩ := h.tasks t ht
  obtain ⟨es, x, hes, hrun, hsees⟩ := h.started b hb hasked
  have hmem : t ∈ x.pending := hsees.mem_pending.mpr ⟨ht, horigin⟩
  exact ⟨b, hb, hasked, hsees.brings (b.brings_of_run (hacts.ready b hb) hidle hrun hes hmem)⟩

theorem otherFields_update (hb : b ∈ acts) (data : Fields) (value : Option Value) :
    otherFields acts (Function.update data b.user.uid.name value) = otherFields acts data := by
  funext field
  unfold otherFields
  split
  · rfl
  · rename_i hfield
    rw [Function.update_of_ne]
    rintro rfl
    exact hfield (List.mem_map.mpr ⟨b, hb, rfl⟩)

theorem Acting.progress (h : Acting w acts asked v) (hacts : Independent w acts)
    (hidle : w.pending = []) (he : e.progresses = true) (hstep : step v e = some v') :
    Acting w acts asked v' := by
  obtain ⟨t, htaken⟩ := progresses_taken he
  obtain ⟨b, hb, hasked, ht⟩ := h.brings hacts hidle ((step_effect hstep).taken t htaken)
  refine ⟨fun t' ht' => ?_, fun a ha hnot => ?_, fun a ha hin => ?_, fun id => ?_⟩
  · rcases mem_step_pending hstep ht' with hold | hissued
    · exact h.tasks t' hold
    · exact ⟨b, hb, hasked, (issued_origin htaken hissued).trans ht.origin⟩
  · have hne : a ≠ b := fun hab => hnot (hab ▸ hasked)
    exact (h.waiting a ha hnot).other ht (hacts.uid_ne ha hb hne) (hacts.origin_ne ha hb hne) he
      htaken hstep
  · obtain ⟨es, x, hes, hrun, hsees⟩ := h.started a ha hin
    by_cases hab : a = b
    · subst hab
      obtain ⟨x', hx', hsees'⟩ := hsees.own ht he htaken hstep
      refine ⟨es ++ [e], x', fun f hf => ?_, ?_, hsees'⟩
      · rcases List.mem_append.mp hf with hf | hf
        · exact hes f hf
        · exact List.mem_singleton.mp hf ▸ he
      · rw [← List.cons_append]
        exact run_append.mpr ⟨x, hrun, run_cons.mpr ⟨x', hx', rfl⟩⟩
    · exact ⟨es, x, hes, hrun, hsees.other ht (hacts.uid_ne ha hb hab) (hacts.origin_ne ha hb hab)
        he htaken hstep⟩
  · by_cases happly : ∃ wr c, e = .apply wr c
    · obtain ⟨wr, c, rfl⟩ := happly
      cases htaken
      cases ht with
      | write origin there =>
        obtain ⟨data, hdata, hads⟩ := step_mark there hstep
        rw [hads, ← h.rest id]
        split
        · rename_i hid
          rw [hid, hdata, Option.map_some, Option.map_some, otherFields_update hb]
        · rfl
    · rw [(step_effect hstep).ads fun wr c he => happly ⟨wr, c, he⟩]
      exact h.rest id

/-- An action that is taken sends its query. -/
theorem Act.Sees.event (hready : b.Ready w) (h : b.Sees v w) (hstep : step v b.event = some v') :
    v' = v.issue [.query ⟨b.ad.title, none⟩ b.callback] := by
  cases b with
  | press sc s user =>
    simp only [Act.event, step, ← h.screens sc rfl, hready.1, Option.map_some,
      Option.some.injEq] at hstep
    exact hstep.symm
  | swipe dev ad user =>
    cases hstep
    rfl

theorem Acting.action (h : Acting w acts asked v) (hacts : Independent w acts) (hb : b ∈ acts)
    (hnot : b.event ∉ asked) (hstep : step v b.event = some v') :
    Acting w acts (asked ++ [b.event]) v' := by
  have hsees := h.waiting b hb hnot
  obtain rfl := hsees.event (hacts.ready b hb) hstep
  have hother : ∀ a ∈ acts, a ≠ b → ∀ x, a.Sees v x →
      a.Sees (v.issue [.query ⟨b.ad.title, none⟩ b.callback]) x := by
    intro a ha hne x hx
    refine ⟨hx.session, hx.screens, ?_, hx.ads⟩
    have hforeign := hacts.origin_ne hb ha (Ne.symm hne)
    rw [hx.pending, issue_pending, List.filter_append]
    simp [Task.origin, show b.callback.origin ≠ a.origin from hforeign]
  refine ⟨fun t ht => ?_, fun a ha hin => ?_, fun a ha hin => ?_, h.rest⟩
  · rw [issue_pending, List.mem_append, List.mem_singleton] at ht
    rcases ht with ht | rfl
    · obtain ⟨a, ha, hasked, horigin⟩ := h.tasks t ht
      exact ⟨a, ha, List.mem_append_left _ hasked, horigin⟩
    · exact ⟨b, hb, List.mem_append_right _ (List.mem_singleton.mpr rfl), rfl⟩
  · rw [List.mem_append, List.mem_singleton, not_or] at hin
    exact hother a ha (fun hab => hin.2 (congrArg Act.event hab)) w (h.waiting a ha hin.1)
  · by_cases hab : a = b
    · subst hab
      have hask : step w a.event = some (w.issue [.query ⟨a.ad.title, none⟩ a.callback]) := by
        have hparts := a.operation_parts (hacts.ready a ha)
        rw [← hparts.event, (a.operation (hacts.ready a ha)).asks, hparts.query, hparts.callback]
      refine ⟨[], _, by simp, run_cons.mpr ⟨_, hask, rfl⟩, hsees.session, hsees.screens, ?_,
        hsees.ads⟩
      rw [issue_pending, issue_pending, hsees.pending, List.filter_append]
      simp [Task.origin, Act.origin]
    · rw [List.mem_append, List.mem_singleton] at hin
      have hasked := hin.resolve_right fun hevent => hab (hacts.event_inj ha hb hevent)
      obtain ⟨es, x, hes, hrun, hx⟩ := h.started a ha hasked
      exact ⟨es, x, hes, hrun, hother a ha hab x hx⟩

end Acting

section Marks

variable {acts : List (Act Double)} {a : Act Double} {field : String}

theorem mark_of_ne (data : Fields) (h : field ≠ a.user.uid.name) : a.mark data field = data field := by
  unfold Act.mark
  split
  · exact Function.update_of_ne h _ _
  · rfl

theorem mark_title (data : Fields) : a.mark data K.titleField = data K.titleField :=
  mark_of_ne data fun h => a.user.uid.notSchema (h ▸ by decide)

/-- The marks of several users leave the fields of all others. -/
theorem marks_of_not_mem (data : Fields) (h : field ∉ acts.map fun a => a.user.uid.name) :
    (acts.foldl (fun data a => a.mark data) data) field = data field := by
  induction acts generalizing data with
  | nil => rfl
  | cons a acts ih =>
    rw [List.map_cons, List.mem_cons, not_or] at h
    rw [List.foldl_cons, ih _ h.2, mark_of_ne data h.1]

theorem mark_own (data before : Fields) (htitle : data K.titleField = before K.titleField)
    (hmark : data a.user.uid.name = before a.user.uid.name) :
    a.mark data a.user.uid.name = a.mark before a.user.uid.name := by
  have hselects : whereField K.titleField a.ad.title data =
      whereField K.titleField a.ad.title before := by
    unfold whereField
    rw [htitle]
  unfold Act.mark
  rw [hselects]
  split
  · rw [Function.update_self, Function.update_self]
  · exact hmark

/-- Each user's mark is what that user's action makes it. -/
theorem marks_of_mem (data : Fields) (husers : acts.Pairwise fun a b => a.user.uid ≠ b.user.uid)
    (ha : a ∈ acts) :
    (acts.foldl (fun data a => a.mark data) data) a.user.uid.name = a.mark data a.user.uid.name := by
  induction acts generalizing data with
  | nil => contradiction
  | cons b acts ih =>
    obtain ⟨hfirst, hrest⟩ := List.pairwise_cons.mp husers
    rw [List.foldl_cons]
    rcases List.mem_cons.mp ha with rfl | ha
    · refine marks_of_not_mem _ fun hmem => ?_
      obtain ⟨c, hc, hname⟩ := List.mem_map.mp hmem
      exact hfirst c hc (MarkKey.eq_of_name hname.symm)
    · have hne : a.user.uid.name ≠ b.user.uid.name :=
        fun hname => hfirst a ha (MarkKey.eq_of_name hname.symm)
      rw [ih (b.mark data) hrest ha]
      exact mark_own _ _ (mark_title data) (mark_of_ne data hne)

end Marks

section Run

variable {w u : World Double} {acts : List (Act Double)} {es : List (Event Double)} {id : DocID}

/-- The user actions among the events of a run. -/
def userActions (es : List (Event Double)) : List (Event Double) :=
  es.filter fun e => !e.progresses

theorem Act.event_progresses (a : Act Double) : a.event.progresses = false := by
  cases a <;> rfl

theorem Independent.events_nodup (h : Independent w acts) : (acts.map Act.event).Nodup := by
  refine List.pairwise_map.mpr (h.users.imp_of_mem fun ha hb hab hevent => ?_)
  rw [h.event_inj ha hb hevent] at hab
  exact hab rfl

theorem acting_run (hidle : w.pending = []) (hacts : Independent w acts)
    (hrun : run step w es = some u) (hnodup : (userActions es).Nodup)
    (hof : ∀ e ∈ userActions es, e ∈ acts.map Act.event) : Acting w acts (userActions es) u := by
  have hstart : Acting w acts (userActions ([] : List (Event Double))) w := by
    refine ⟨by simp [hidle], fun a ha _ => ?_, fun a ha h => by simp [userActions] at h,
      fun id => rfl⟩
    exact ⟨rfl, fun _ _ => rfl, by simp [hidle], fun _ => rfl⟩
  have hend := run_history (P := fun fs v => (userActions fs).Nodup →
      (∀ e ∈ userActions fs, e ∈ acts.map Act.event) → Acting w acts (userActions fs) v)
    (fun fs v e v' hv hstep hnodup hof => ?_) (fun _ _ => hstart) hrun
  · exact hend hnodup hof
  · have hsplit : userActions (fs ++ [e]) = userActions fs ++ userActions [e] :=
      List.filter_append fs [e]
    rw [hsplit] at hnodup hof ⊢
    have hbefore := hv (List.nodup_append.mp hnodup).1 fun f hf => hof f (List.mem_append_left _ hf)
    by_cases he : e.progresses = true
    · have hnone : userActions [e] = [] := by simp [userActions, he]
      rw [hnone, List.append_nil]
      exact hbefore.progress hacts hidle he hstep
    · have hone : userActions [e] = [e] := by simp [userActions, he]
      rw [hone] at hnodup hof ⊢
      obtain ⟨b, hb, rfl⟩ := List.mem_map.mp (hof e (by simp))
      refine hbefore.action hacts hb (fun hmem => ?_) hstep
      exact (List.nodup_append.mp hnodup).2.2 _ hmem _ (List.mem_singleton.mpr rfl) rfl

/-- Favourite actions of several users, taken in any order and with their queries, writes and
callbacks interleaved in any way, leave each document as if one user had acted after another. -/
theorem concurrent_finished (hidle : w.pending = []) (hacts : Independent w acts)
    (hrun : run step w es = some u) (hes : (userActions es).Perm (acts.map Act.event))
    (hdone : u.pending = []) (id : DocID) :
    u.ads.lookup id = (w.ads.lookup id).map fun data =>
      acts.foldl (fun data a => a.mark data) data := by
  have hacting := acting_run hidle hacts hrun (hes.nodup_iff.mpr hacts.events_nodup)
    fun e he => hes.mem_iff.mp he
  have hrest := hacting.rest id
  cases hbefore : w.ads.lookup id with
  | none =>
    rw [hbefore] at hrest
    simpa using hrest
  | some before =>
    rw [hbefore, Option.map_some] at hrest
    obtain ⟨after, hafter, hothers⟩ := Option.map_eq_some_iff.mp hrest
    rw [hafter, Option.map_some, Option.some.injEq]
    funext field
    by_cases hfield : field ∈ acts.map fun a => a.user.uid.name
    · obtain ⟨a, ha, rfl⟩ := List.mem_map.mp hfield
      have hasked := hes.mem_iff.mpr (List.mem_map.mpr ⟨a, ha, rfl⟩)
      obtain ⟨fs, x, hfs, hx, hsees⟩ := hacting.started a ha hasked
      have hquiet : x.pending = [] := by rw [hsees.pending, hdone, List.filter_nil]
      -- The run of the action alone says what has become of its mark.
      have halone := (a.favouriteAction (hacts.ready a ha)).finished hidle hx hfs hquiet id
      have hseen := hsees.ads id
      have hmark : x.ads.lookup id = some (a.mark before) := by
        rw [halone, hbefore, Option.bind_some]
        unfold Act.mark
        split <;> rfl
      rw [hmark, hafter, Option.map_some, Option.map_some, Option.some.injEq] at hseen
      rw [marks_of_mem before hacts.users ha]
      exact (congrArg Prod.snd hseen).symm
    · rw [marks_of_not_mem before hfield]
      have hsame := congrFun hothers field
      simpa only [otherFields, if_neg hfield] using hsame

/-- The actions of `order`, one after another, each followed to its end before the next. -/
inductive Serial : World Double → List (Act Double) → World Double → Prop
  | done (w : World Double) : Serial w [] w
  | act {w x y z : World Double} {a : Act Double} {order : List (Act Double)}
      {es : List (Event Double)} (asks : step w a.event = some x)
      (progress : ∀ e ∈ es, e.progresses = true) (settles : run step x es = some y)
      (idle : y.pending = []) (later : Serial y order z) : Serial w (a :: order) z

theorem userActions_progress (hes : ∀ e ∈ es, e.progresses = true) : userActions es = [] :=
  List.filter_eq_nil_iff.mpr fun e he => by simp [hes e he]

theorem serial_run {order : List (Act Double)} (h : Serial w order u) (hidle : w.pending = []) :
    ∃ fs, run step w fs = some u ∧ userActions fs = order.map Act.event ∧ u.pending = [] := by
  induction h with
  | done w => exact ⟨[], rfl, rfl, hidle⟩
  | @act w x y z a order es asks progress settles idle later ih =>
    obtain ⟨fs, hfs, hactions, hquiet⟩ := ih idle
    refine ⟨a.event :: (es ++ fs), run_cons.mpr ⟨x, asks, run_append.mpr ⟨y, settles, hfs⟩⟩, ?_, hquiet⟩
    have hsplit : userActions (es ++ fs) = userActions es ++ userActions fs :=
      List.filter_append es fs
    have hfirst : userActions (a.event :: (es ++ fs)) = a.event :: userActions (es ++ fs) :=
      List.filter_cons_of_pos (by simp [a.event_progresses])
    rw [hfirst, hsplit, userActions_progress progress, hactions]
    rfl

/-- An action stays possible, as the screens that are there stay. -/
theorem event_run {a : Act Double} (h : ∃ x, step w a.event = some x) (hrun : run step w es = some u) :
    ∃ x, step u a.event = some x := by
  cases a with
  | press sc s user =>
    obtain ⟨x, hx⟩ := h
    obtain ⟨shown, hshown, -⟩ := Option.map_eq_some_iff.mp hx
    obtain ⟨flag, hflag⟩ := run_keeps_screen hshown hrun
    exact ⟨_, by rw [Act.event, step, hflag]; rfl⟩
  | swipe dev ad user => exact ⟨_, rfl⟩

theorem exists_serial (order : List (Act Double))
    (h : ∀ a ∈ order, ∃ x, step w a.event = some x) : ∃ u, Serial w order u := by
  induction order generalizing w with
  | nil => exact ⟨w, .done w⟩
  | cons a order ih =>
    obtain ⟨x, hx⟩ := h a List.mem_cons_self
    obtain ⟨es, y, hes, hy, hidle, -⟩ := settles_idle x
    obtain ⟨u, hu⟩ := ih (w := y) fun b hb =>
      event_run (h b (List.mem_cons_of_mem a hb)) (run_cons.mpr ⟨x, hx, hy⟩)
    exact ⟨u, .act hx hes hy hidle hu⟩

theorem Act.Ready.enabled {a : Act Double} (h : a.Ready w) : ∃ x, step w a.event = some x := by
  cases a with
  | press sc s user => exact ⟨_, by rw [Act.event, step, h.1]; rfl⟩
  | swipe dev ad user => exact ⟨_, rfl⟩

/-- The interleaved actions are serializable: whatever the order, the users can act in it one after
another, and whenever they do, the documents end as they did in the interleaved run. -/
theorem serializable (hidle : w.pending = []) (hacts : Independent w acts)
    (hrun : run step w es = some u) (hes : (userActions es).Perm (acts.map Act.event))
    (hdone : u.pending = []) {order : List (Act Double)} (horder : order.Perm acts) :
    (∃ v, Serial w order v) ∧ ∀ v, Serial w order v → v.ads = u.ads := by
  refine ⟨exists_serial order fun a ha => (hacts.ready a (horder.mem_iff.mp ha)).enabled,
    fun v hv => ?_⟩
  obtain ⟨fs, hfs, hactions, hquiet⟩ := serial_run hv hidle
  have hperm : (userActions fs).Perm (acts.map Act.event) := hactions ▸ horder.map Act.event
  apply Finmap.ext_lookup
  intro id
  rw [concurrent_finished hidle hacts hfs hperm hquiet, concurrent_finished hidle hacts hrun hes hdone]

end Run

/-- Alice and Bob press at the same time on their screens of one ad. -/
def pressesMeet : List (Event Nat) :=
  [.favoriteButton 0, .favoriteButton 1, .evaluate ⟨"Velo", none⟩ (.favoriteButton 1) [1],
    .evaluate ⟨"Velo", none⟩ (.favoriteButton 0) [1],
    .deliver (.answer [1] (.favoriteButton 0)), .deliver (.answer [1] (.favoriteButton 1)),
    .apply (.setData 1 bob.uid) (.misEnFavoris 1), .apply (.setData 1 alice.uid) (.misEnFavoris 0),
    .deliver (.ack true (.misEnFavoris 0)), .deliver (.ack true (.misEnFavoris 1))]

def alicesPress : Act Nat := .press 0 ⟨0, (AdData.sample "Velo" "A" alice.mail).toAd 0, none⟩ alice

def bobsPress : Act Nat := .press 1 ⟨1, (AdData.sample "Velo" "A" alice.mail).toAd 0, none⟩ bob

/-- The ad ends as if Bob had pressed first and then Alice. -/
theorem serializable_velo : ∃ u v, run step bothLook pressesMeet = some u ∧
    Serial bothLook [bobsPress, alicesPress] v ∧ v.ads = u.ads := by
  obtain ⟨u, hrun, hdone⟩ : ∃ u, run step bothLook pressesMeet = some u ∧ u.pending = [] :=
    ⟨_, rfl, rfl⟩
  have hacts : Independent bothLook [alicesPress, bobsPress] := by
    refine ⟨fun a ha => ?_, by simp [alicesPress, bobsPress, Act.user, alice, bob]⟩
    simp only [List.mem_cons, List.not_mem_nil, or_false] at ha
    rcases ha with rfl | rfl <;> exact ⟨rfl, rfl⟩
  obtain ⟨⟨v, hv⟩, hsame⟩ := serializable rfl hacts hrun (by decide) hdone (List.Perm.swap _ _ _)
  exact ⟨u, v, hrun, hv, hsame v hv⟩

end VoisinMalin
