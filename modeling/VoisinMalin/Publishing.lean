import VoisinMalin.AdForm

/-! The document IDs of the published ads. A form gives its UUID to every document that it writes and
stays on the screen until a write is acknowledged, so the IDs are distinct where nobody presses again
before the acknowledgement, and as long as no form gets two writes applied. -/

namespace VoisinMalin

open EventMachine Visits

variable {Double : Type}

def UniqueIDs (s : Visits) : Prop := DistinctDocumentIDs s.ads

/-- A press is accepted only when no write of the form is under way and no success unacknowledged. -/
def WaitsForAck (sv : FormServices Double) (s : Visits) (e : FormEvent Double) : Prop :=
  ∀ unique data, e = .publishButton unique → s.published sv unique = some data →
    (∀ data', .addDocument unique data' ∉ s.saving) ∧ .ack unique true ∉ s.saving

/-- The first write of a form that is applied is the only one. -/
def FirstOfVisit (s : Visits) (e : FormEvent Double) : Prop :=
  ∀ unique data id, e = .apply unique data id → unique ∉ s.saved

/-- The UUIDs in use include those of the forms and the IDs of the documents, and the forms with a
document are the ones with a write applied. -/
structure Registered (s : Visits) : Prop where
  forms : ∀ unique, (s.forms unique).isSome → unique ∈ s.uuids
  docs : ∀ id data unique, s.ads.lookup id = some data →
    data K.documentID = some (.string unique) → unique ∈ s.uuids
  saving : ∀ unique data, .addDocument unique data ∈ s.saving →
    data.documentID = unique ∧ (s.forms unique).isSome
  saved : ∀ unique ∈ s.saved, unique ∈ s.uuids
  screen : ∀ dev unique, s.screen dev = some unique →
    ∃ form, s.forms unique = some form ∧ form.device = dev
  applied : ∀ unique, (s.forms unique).isSome → (unique ∈ s.saved ↔
    ∃ id data, s.ads.lookup id = some data ∧ data K.documentID = some (.string unique))

section Step

variable {sv : FormServices Double} {s t : Visits} {e : FormEvent Double}

theorem insert_documentID {ads : Collection} {id : DocID} {data : AdData} {unique : String}
    (hfree : id ∉ ads) :
    (∃ i d, Finmap.lookup i (ads.insert id data.fields) = some d ∧
      d K.documentID = some (.string unique)) ↔
    data.documentID = unique ∨
      ∃ i d, ads.lookup i = some d ∧ d K.documentID = some (.string unique) := by
  have hlookup : ∀ i, Finmap.lookup i (ads.insert id data.fields) =
      if i = id then some data.fields else ads.lookup i :=
    fun i => Collection.lookup_put ads id i (some data.fields)
  constructor
  · rintro ⟨i, d, hd, hdocument⟩
    rw [hlookup] at hd
    split at hd
    · cases hd
      exact Or.inl (Value.string.inj (Option.some.inj hdocument))
    · exact Or.inr ⟨i, d, hd, hdocument⟩
  · rintro (rfl | ⟨i, d, hd, hdocument⟩)
    · exact ⟨id, data.fields, by rw [hlookup, if_pos rfl], rfl⟩
    · refine ⟨i, d, ?_, hdocument⟩
      rw [hlookup, if_neg, hd]
      rintro rfl
      exact hfree (Finmap.mem_of_lookup_eq_some hd)

theorem load_registered (hs : Registered s) {dev : DeviceID} {unique : String}
    (hnew : unique ∉ s.uuids) : Registered (s.load dev unique) := by
  have hold : ∀ u, u ≠ unique → (s.load dev unique).forms u = s.forms u := by
    intro u hu
    rw [load_forms, if_neg hu]
  have hknown : ∀ u, (s.forms u).isSome → u ≠ unique := by
    rintro u hu rfl
    exact hnew (hs.forms u hu)
  refine ⟨fun u hu => ?_, fun id data u hd hdocument => ?_, fun u data hm => ?_, fun u hu => ?_,
    fun d u hscreen => ?_, fun u hu => ?_⟩
  · by_cases hsame : u = unique
    · rw [hsame]
      exact Finset.mem_insert_self unique s.uuids
    · rw [hold u hsame] at hu
      exact Finset.mem_insert_of_mem (hs.forms u hu)
  · exact Finset.mem_insert_of_mem (hs.docs id data u hd hdocument)
  · obtain ⟨hdocument, hform⟩ := hs.saving u data hm
    refine ⟨hdocument, ?_⟩
    rw [hold u (hknown u hform)]
    exact hform
  · exact Finset.mem_insert_of_mem (hs.saved u hu)
  · by_cases hd : d = dev
    · subst hd
      simp only [load, Function.update_self, Option.some.injEq] at hscreen
      subst hscreen
      exact ⟨.loaded d, by rw [load_forms, if_pos rfl], rfl⟩
    · simp only [load, Function.update_of_ne hd] at hscreen
      obtain ⟨form, hform, hdevice⟩ := hs.screen d u hscreen
      exact ⟨form, by rw [hold u (hknown u (by simp [hform])), hform], hdevice⟩
  · by_cases hsame : u = unique
    · subst hsame
      refine ⟨fun hsaved => absurd (hs.saved u hsaved) hnew, ?_⟩
      rintro ⟨id, data, hd, hdocument⟩
      exact absurd (hs.docs id data u hd hdocument) hnew
    · rw [hold u hsame] at hu
      exact hs.applied u hu

theorem add_registered (hs : Registered s) {unique : String} {data : AdData} {id : DocID}
    (hmem : .addDocument unique data ∈ s.saving) (hfree : id ∉ s.ads) :
    Registered { s with
      ads := s.ads.insert id data.fields
      saved := unique :: s.saved
      saving := s.saving.erase (.addDocument unique data) ++ [.ack unique true] } := by
  obtain ⟨hdocument, hform⟩ := hs.saving unique data hmem
  refine ⟨hs.forms, fun i d u hd hu => ?_, fun u d hm => ?_, fun u hu => ?_, hs.screen,
    fun u hu => ?_⟩
  · rcases (insert_documentID hfree).mp ⟨i, d, hd, hu⟩ with rfl | ⟨i, d, hd, hu⟩
    · rw [hdocument]
      exact hs.forms unique hform
    · exact hs.docs i d u hd hu
  · simp only [List.mem_append, List.mem_singleton, reduceCtorEq, or_false] at hm
    exact hs.saving u d (List.mem_of_mem_erase hm)
  · rcases List.mem_cons.mp hu with rfl | hu
    · exact hs.forms u hform
    · exact hs.saved u hu
  · rw [insert_documentID hfree, hdocument, List.mem_cons, hs.applied u hu, eq_comm]

theorem step_registered (hs : Registered s) (h : step sv s e = some t) : Registered t := by
  cases step_stepped h with
  | loaded new state =>
    subst state
    exact load_registered hs new
  | obtained known state =>
    subst state
    exact ⟨hs.forms, hs.docs, hs.saving, hs.saved, hs.screen, hs.applied⟩
  | @published unique data accepted state =>
    subst state
    refine ⟨hs.forms, hs.docs, fun u d hm => ?_, hs.saved, hs.screen, hs.applied⟩
    rcases List.mem_append.mp hm with hold | hnew
    · exact hs.saving u d hold
    · obtain ⟨rfl, rfl⟩ := Saving.addDocument.inj (List.mem_singleton.mp hnew)
      obtain ⟨form, hform, -, hdocument, -⟩ := published_eq_some accepted
      exact ⟨hdocument, by simp [hform]⟩
  | applied mem free state =>
    subst state
    exact add_registered hs mem free
  | failed mem state =>
    subst state
    refine ⟨hs.forms, hs.docs, fun u d hm => ?_, hs.saved, hs.screen, hs.applied⟩
    simp only [List.mem_append, List.mem_singleton, reduceCtorEq, or_false] at hm
    exact hs.saving u d (List.mem_of_mem_erase hm)
  | @acked unique ok form mem known state =>
    subst state
    refine ⟨hs.forms, hs.docs, fun u d hm => hs.saving u d (List.mem_of_mem_erase hm), hs.saved,
      fun dev u hscreen => hs.screen dev u ?_, hs.applied⟩
    simp only at hscreen
    split at hscreen
    · by_cases hd : dev = form.device
      · simp [hd] at hscreen
      · simpa [hd] using hscreen
    · exact hscreen
  | other rejected applies state =>
    refine ⟨fun u hu => ?_, fun id data u hd hu => ?_, fun u d hm => ?_, fun u hu => ?_,
      fun dev u hscreen => ?_, fun u hu => ?_⟩
    · rw [state.uuids]
      exact hs.forms u (state.known u hu)
    · rw [state.uuids]
      exact hs.docs id data u (state.ads ▸ hd) hu
    · obtain ⟨hdocument, hform⟩ := hs.saving u d (state.saving ▸ hm)
      obtain ⟨form, hform⟩ := Option.isSome_iff_exists.mp hform
      obtain ⟨form', hform', -⟩ := state.forms u form hform
      exact ⟨hdocument, by simp [hform']⟩
    · rw [state.uuids]
      exact hs.saved u (state.saved ▸ hu)
    · obtain ⟨form, hform, hdevice⟩ := hs.screen dev u (state.screen dev u hscreen)
      obtain ⟨form', hform', hsame⟩ := state.forms u form hform
      exact ⟨form', hform', hsame.trans hdevice⟩
    · rw [state.saved, state.ads]
      exact hs.applied u (state.known u hu)

/-- From distinct IDs a step leads to distinct IDs exactly when it is not the second write of a
form. -/
theorem step_uniqueIDs (hreg : Registered s) (hs : UniqueIDs s) (h : step sv s e = some t) :
    UniqueIDs t ↔ FirstOfVisit s e := by
  cases step_stepped h with
  | loaded new state | obtained known state | published accepted state | failed mem state
  | acked mem known state =>
    subst state
    exact ⟨fun _ _ _ _ he => by contradiction, fun _ => hs⟩
  | @applied unique data id mem free state =>
    subst state
    obtain ⟨hdocument, hform⟩ := hreg.saving unique data mem
    have hfield : data.fields K.documentID = some (.string unique) := by
      rw [← hdocument]
      rfl
    have hnew := distinctField_insert (Finmap.lookup_eq_none.mpr free) hfield
    have hsaved : (∀ j dj, s.ads.lookup j = some dj →
        dj K.documentID ≠ some (.string unique)) ↔ unique ∉ s.saved := by
      rw [hreg.applied unique hform]
      push Not
      rfl
    constructor
    · intro ht unique' data' id' he
      cases he
      exact hsaved.mp (hnew.mp ht).2
    · intro hfirst
      exact hnew.mpr ⟨hs, hsaved.mpr (hfirst unique data id rfl)⟩
  | other rejected applies state =>
    refine ⟨fun _ unique data id he => absurd he (applies unique data id), fun _ => ?_⟩
    rw [UniqueIDs, state.ads]
    exact hs

/-- The number of writes of the form `unique` under way. -/
def underWay (saving : List Saving) (unique : String) : Nat :=
  saving.countP fun w => match w with
    | .addDocument u _ => u == unique
    | .ack _ _ => false

theorem underWay_perm {saving saving' : List Saving} (h : saving.Perm saving') (unique : String) :
    underWay saving unique = underWay saving' unique := h.countP_eq _

theorem underWay_cons_add (saving : List Saving) (u unique : String) (data : AdData) :
    underWay (.addDocument u data :: saving) unique =
      underWay saving unique + if u = unique then 1 else 0 := by
  simp [underWay, List.countP_cons]

theorem underWay_cons_ack (saving : List Saving) (u unique : String) (ok : Bool) :
    underWay (.ack u ok :: saving) unique = underWay saving unique := by
  simp [underWay]

theorem underWay_add (saving : List Saving) (u unique : String) (data : AdData) :
    underWay (saving ++ [.addDocument u data]) unique =
      underWay saving unique + if u = unique then 1 else 0 := by
  rw [underWay_perm (List.perm_append_singleton _ saving), underWay_cons_add]

theorem underWay_ack (saving : List Saving) (u unique : String) (ok : Bool) :
    underWay (saving ++ [.ack u ok]) unique = underWay saving unique := by
  rw [underWay_perm (List.perm_append_singleton _ saving), underWay_cons_ack]

theorem underWay_erase {saving : List Saving} {u : String} {data : AdData} (unique : String)
    (h : .addDocument u data ∈ saving) :
    underWay (saving.erase (.addDocument u data)) unique + (if u = unique then 1 else 0) =
      underWay saving unique := by
  rw [underWay_perm (List.perm_cons_erase h), underWay_cons_add]

theorem underWay_erase_ack (saving : List Saving) (u unique : String) (ok : Bool) :
    underWay (saving.erase (.ack u ok)) unique = underWay saving unique := by
  by_cases h : .ack u ok ∈ saving
  · rw [underWay_perm (List.perm_cons_erase h), underWay_cons_ack]
  · rw [List.erase_of_not_mem h]

theorem underWay_zero {saving : List Saving} {unique : String}
    (h : ∀ data, .addDocument unique data ∉ saving) : underWay saving unique = 0 := by
  rw [underWay, List.countP_eq_zero]
  intro w hw hadds
  cases w with
  | addDocument u data =>
    rw [beq_iff_eq] at hadds
    exact h data (hadds ▸ hw)
  | ack u ok => simp at hadds

/-- Each form has at most one write under way, and once one has been applied there is no other: its
success is still unacknowledged, or the form has left the screen. -/
structure OneWrite (s : Visits) : Prop where
  once : ∀ unique, underWay s.saving unique ≤ 1
  closed : ∀ unique ∈ s.saved, underWay s.saving unique = 0 ∧
    (.ack unique true ∈ s.saving ∨ ∀ dev, s.screen dev ≠ some unique)

theorem load_oneWrite (hreg : Registered s) (hs : OneWrite s) {dev : DeviceID} {unique : String}
    (hnew : unique ∉ s.uuids) : OneWrite (s.load dev unique) := by
  refine ⟨hs.once, fun u hu => ?_⟩
  obtain ⟨hnone, hclosed⟩ := hs.closed u hu
  refine ⟨hnone, hclosed.imp_right fun hoff d hscreen => ?_⟩
  by_cases hd : d = dev
  · subst hd
    simp only [load, Function.update_self, Option.some.injEq] at hscreen
    subst hscreen
    exact hnew (hreg.saved unique hu)
  · simp only [load, Function.update_of_ne hd] at hscreen
    exact hoff d hscreen

theorem publish_oneWrite (hs : OneWrite s) {unique : String} {data : AdData}
    (haccepted : s.published sv unique = some data)
    (hadd : ∀ data', .addDocument unique data' ∉ s.saving) (hack : .ack unique true ∉ s.saving) :
    OneWrite { s with
      saving := s.saving ++ [.addDocument unique data], written := s.written ++ [data] } := by
  have hsaved : unique ∉ s.saved := by
    intro hmem
    obtain ⟨form, -, hscreen, -⟩ := published_eq_some haccepted
    rcases (hs.closed unique hmem).2 with hunacked | hoff
    · exact hack hunacked
    · exact hoff form.device hscreen
  constructor
  · intro u
    have honce := hs.once u
    rw [underWay_add]
    split
    · rename_i hsame
      rw [← hsame, underWay_zero hadd]
    · exact honce
  · intro u hu
    have hne : unique ≠ u := fun hsame => hsaved (hsame ▸ hu)
    obtain ⟨hzero, hclosed⟩ := hs.closed u hu
    rw [underWay_add, if_neg hne]
    exact ⟨hzero, hclosed.imp_left fun hm => List.mem_append_left _ hm⟩

theorem add_oneWrite (hs : OneWrite s) {unique : String} {data : AdData} {id : DocID}
    (hmem : .addDocument unique data ∈ s.saving) :
    OneWrite { s with
      ads := s.ads.insert id data.fields
      saved := unique :: s.saved
      saving := s.saving.erase (.addDocument unique data) ++ [.ack unique true] } := by
  constructor
  · intro u
    have honce := hs.once u
    have herase := underWay_erase u hmem
    rw [underWay_ack]
    omega
  · intro u hu
    have honce := hs.once u
    have herase := underWay_erase u hmem
    rw [underWay_ack]
    by_cases hsame : unique = u
    · rw [if_pos hsame] at herase
      exact ⟨by omega, Or.inl (by simp [hsame])⟩
    · obtain ⟨hzero, hclosed⟩ := hs.closed u ((List.mem_cons.mp hu).resolve_left (Ne.symm hsame))
      refine ⟨by omega, hclosed.imp_left fun hm => ?_⟩
      exact List.mem_append_left _ ((List.mem_erase_of_ne (by simp)).mpr hm)

theorem fail_oneWrite (hs : OneWrite s) {unique : String} {data : AdData}
    (hmem : .addDocument unique data ∈ s.saving) :
    OneWrite { s with
      saving := s.saving.erase (.addDocument unique data) ++ [.ack unique false] } := by
  constructor
  · intro u
    have honce := hs.once u
    have herase := underWay_erase u hmem
    rw [underWay_ack]
    omega
  · intro u hu
    have herase := underWay_erase u hmem
    obtain ⟨hzero, hclosed⟩ := hs.closed u hu
    rw [underWay_ack]
    refine ⟨by omega, hclosed.imp_left fun hm => ?_⟩
    exact List.mem_append_left _ ((List.mem_erase_of_ne (by simp)).mpr hm)

/-- After an acknowledged success the form is on no screen. -/
theorem ack_oneWrite (hreg : Registered s) (hs : OneWrite s) {unique : String} {ok : Bool}
    {form : Form} (hform : s.forms unique = some form) :
    OneWrite { s with
      saving := s.saving.erase (.ack unique ok)
      screen := if ok ∧ s.screen form.device = some unique then
        Function.update s.screen form.device none else s.screen } := by
  have hkept : ∀ dev u, (if ok ∧ s.screen form.device = some unique then
      Function.update s.screen form.device none else s.screen) dev = some u →
      s.screen dev = some u ∧ (ok = true → u ≠ unique) := by
    intro dev u hscreen
    have hdevice : u = unique → s.screen dev = some u → dev = form.device := by
      rintro rfl h
      obtain ⟨form', hform', hdevice⟩ := hreg.screen dev u h
      rw [hform] at hform'
      cases hform'
      exact hdevice.symm
    split at hscreen
    · by_cases hd : dev = form.device
      · simp [hd] at hscreen
      · rw [Function.update_of_ne hd] at hscreen
        exact ⟨hscreen, fun _ hu => hd (hdevice hu hscreen)⟩
    · rename_i hoff
      refine ⟨hscreen, fun hok hu => hoff ⟨hok, ?_⟩⟩
      rw [← hdevice hu hscreen, hscreen, hu]
  constructor
  · intro u
    rw [underWay_erase_ack]
    exact hs.once u
  · intro u hu
    obtain ⟨hzero, hclosed⟩ := hs.closed u hu
    rw [underWay_erase_ack]
    refine ⟨hzero, ?_⟩
    rcases hclosed with hm | hoff
    · by_cases hsame : Saving.ack u true = .ack unique ok
      · obtain ⟨rfl, rfl⟩ := Saving.ack.inj hsame
        exact Or.inr fun dev hscreen => (hkept dev u hscreen).2 rfl rfl
      · exact Or.inl ((List.mem_erase_of_ne hsame).mpr hm)
    · exact Or.inr fun dev hscreen => hoff dev (hkept dev u hscreen).1

theorem step_oneWrite (hreg : Registered s) (hs : OneWrite s) (hwaits : WaitsForAck sv s e)
    (h : step sv s e = some t) : OneWrite t := by
  cases step_stepped h with
  | loaded new state =>
    subst state
    exact load_oneWrite hreg hs new
  | obtained known state =>
    subst state
    exact ⟨hs.once, hs.closed⟩
  | @published unique data accepted state =>
    subst state
    obtain ⟨hadd, hack⟩ := hwaits unique data rfl accepted
    exact publish_oneWrite hs accepted hadd hack
  | applied mem free state =>
    subst state
    exact add_oneWrite hs mem
  | failed mem state =>
    subst state
    exact fail_oneWrite hs mem
  | acked mem known state =>
    subst state
    exact ack_oneWrite hreg hs known
  | other rejected applies state =>
    constructor
    · rw [state.saving]
      exact hs.once
    · intro u hu
      rw [state.saved] at hu
      rw [state.saving]
      obtain ⟨hzero, hclosed⟩ := hs.closed u hu
      exact ⟨hzero, hclosed.imp_right fun hoff dev hscreen =>
        hoff dev (state.screen dev u hscreen)⟩

/-- Where presses wait for the acknowledgement, a write that is applied is the first of its form. -/
theorem oneWrite_first (hs : OneWrite s) (h : step sv s e = some t) : FirstOfVisit s e := by
  intro unique data id he hsaved
  subst he
  cases step_stepped h with
  | applied mem free state =>
    have hcount := underWay_erase unique mem
    rw [(hs.closed unique hsaved).1, if_pos rfl] at hcount
    omega
  | other rejected applies state => exact absurd rfl (applies unique data id)

end Step

section Run

variable {sv : FormServices Double} {ads : Collection} {uuids : Finset String}
  {session : DeviceID → Option User} {userMail url : DeviceID → Option String}

theorem launch_registered (session : DeviceID → Option User) (userMail url : DeviceID → Option String)
    (huuids : ∀ id data unique, ads.lookup id = some data →
      data K.documentID = some (.string unique) → unique ∈ uuids) :
    Registered (launch ads uuids session userMail url) :=
  ⟨fun _ h => by contradiction, huuids, fun _ _ h => by contradiction, fun _ h => by contradiction,
    fun _ _ h => by contradiction, fun _ h => by contradiction⟩

/-- In every state of a run the document IDs are distinct when every accepted press waits for the
acknowledgement of the writes before it. They are distinct exactly when no form gets a second write
applied. -/
theorem uniqueIDs_iff (hdistinct : DistinctDocumentIDs ads)
    (huuids : ∀ id data unique, ads.lookup id = some data →
      data K.documentID = some (.string unique) → unique ∈ uuids) (es : List (FormEvent Double)) :
    (Along (step sv) (WaitsForAck sv) (launch ads uuids session userMail url) es →
      Always (step sv) UniqueIDs (launch ads uuids session userMail url) es) ∧
    (Always (step sv) UniqueIDs (launch ads uuids session userMail url) es ↔
      Along (step sv) FirstOfVisit (launch ads uuids session userMail url) es) := by
  have hstart := launch_registered session userMail url huuids
  have hiff : Always (step sv) UniqueIDs (launch ads uuids session userMail url) es ↔
      Along (step sv) FirstOfVisit (launch ads uuids session userMail url) es :=
    always_iff_along (fun _ _ _ hs h => step_registered hs h)
      (fun _ _ _ hreg hs h => step_uniqueIDs hreg hs h) hstart hdistinct
  refine ⟨fun hwaits => hiff.mpr ?_, hiff⟩
  refine hwaits.imp_of (I := fun s => Registered s ∧ OneWrite s) ?_ ?_
    ⟨hstart, fun _ => Nat.zero_le 1, fun _ h => by contradiction⟩
  · rintro s e t ⟨hreg, hone⟩ hwaits h
    exact ⟨step_registered hreg h, step_oneWrite hreg hone hwaits h⟩
  · rintro s e t ⟨-, hone⟩ - h
    exact oneWrite_first hone h

end Run

/-- A device on which an earlier visit has left an image. -/
def imageLeft : Visits := launch ∅ ∅ (fun _ => some alice) (fun _ => none) (fun _ => some "image")

/-- The document of a visit there, from a form without location. -/
def velo : AdData where
  description := "Bon etat"
  isFavorites := false
  documentID := "A"
  location := ""
  gpsLocationLat := "Label"
  gpsLocationLong := "Label"
  sortDistance := "Label"
  phone := "0600000000"
  image := "image"
  price := "40"
  title := "Velo"
  mail := alice.mail

/-- A press, its write and the acknowledgement. -/
def pressOnce : List (FormEvent Nat) :=
  [.viewDidLoad 0 "A", fills "A" "Velo", .publishButton "A", .apply "A" velo 1, .deliver "A" true]

def pressTwice : List (FormEvent Nat) :=
  [.viewDidLoad 0 "A", fills "A" "Velo", .publishButton "A", .publishButton "A", .apply "A" velo 1,
    .apply "A" velo 2]

theorem pressOnce_uniqueIDs : Always (step plainServices) UniqueIDs imageLeft pressOnce := by
  refine (uniqueIDs_iff (distinctField_empty _) (fun _ _ _ h => by contradiction) _).1 ?_
  iterate 2 refine Along.cons rfl (fun _ _ he => nomatch he) ?_
  refine Along.cons rfl (fun _ _ _ _ => ⟨fun _ h => (nomatch h), fun h => (nomatch h)⟩) ?_
  iterate 2 refine Along.cons rfl (fun _ _ he => nomatch he) ?_
  trivial

/-- Two presses before the first acknowledgement leave two documents with one ID. -/
theorem pressTwice_sameID : ∃ s, run (step plainServices) imageLeft pressTwice = some s ∧
    ¬UniqueIDs s := by
  obtain ⟨s, hrun, hone, htwo⟩ : ∃ s, run (step plainServices) imageLeft pressTwice = some s ∧
      s.ads.lookup 1 = some velo.fields ∧ s.ads.lookup 2 = some velo.fields :=
    ⟨_, rfl, rfl, rfl⟩
  refine ⟨s, hrun, fun h => ?_⟩
  exact absurd (h 1 2 _ _ "A" hone htwo rfl rfl) (by decide)

end VoisinMalin
