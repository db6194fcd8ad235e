import VoisinMalin.Library.Run
import VoisinMalin.Firestore
import VoisinMalin.Loading

/-! The list of ads of SearchListController, FavoriteListController and HomeViewController over its
appearances. An appearance empties `privateAds` and sends a query; every answer, to whichever
appearance it belongs, is appended. So when all queries are answered the list has the ads of the last
answer if and only if no earlier query brought an ad after the last appearance. -/

namespace VoisinMalin

open EventMachine

inductive ListController where
  | search
  | favorites
  | home
deriving DecidableEq

inductive ListQuery where
  | all
  | marked (key : MarkKey)
  | ofMail (mail : String)
deriving DecidableEq

def ListQuery.selects : ListQuery → Fields → Bool
  | .all, _ => true
  | .marked key, data => whereField key.name "" data
  | .ofMail mail, data => whereField K.mailField mail data

/-- A query sent by an appearance, with the number of appearances before it. -/
structure Asked where
  number : Nat
  query : ListQuery
deriving DecidableEq

variable {Double Location : Type}

namespace ListController

/-- The query of an appearance. Home reads the mail from the user default that its `viewDidAppear`
has just set. -/
def query : ListController → Option User → ListQuery
  | .search, _ => .all
  | .favorites, user => .marked (markOrOups user)
  | .home, user => .ofMail ((user.map User.mail).getD "??")

def load (pl : Platform Double Location) (location : Option Location) :
    ListController → List Fields → List (DefaultAds Double) →
      Except FailedCast (List (DefaultAds Double))
  | .search => SearchListController.loadData pl location
  | .favorites => FavoriteListController.loadData pl
  | .home => HomeViewController.uploadData pl

end ListController

structure ListState (Double Location : Type) where
  privateAds : List (DefaultAds Double)
  table : List (DefaultAds Double) -- the rows at the last `reloadData`
  location : Option Location
  selectedSegmentIndex : Nat
  queries : List Asked
  issued : Nat

inductive ListEvent (Location : Type) where
  | appear (user : Option User)
  | answer (a : Asked) (docs : List Fields)
  | fail (a : Asked)
  | locate (location : Location)
  | sortSegmentPressed (segment : Nat)

namespace ListState

def fresh : ListState Double Location := ⟨[], [], none, 0, [], 0⟩

def reloadData (s : ListState Double Location) : ListState Double Location :=
  { s with table := s.privateAds }

def take (s : ListState Double Location) (a : Asked) : Option (ListState Double Location) :=
  if a ∈ s.queries then some { s with queries := s.queries.erase a } else none

def appear (c : ListController) (user : Option User) (s : ListState Double Location) :
    ListState Double Location :=
  reloadData { s with
    privateAds := [], queries := s.queries ++ [⟨s.issued, c.query user⟩], issued := s.issued + 1 }

/-- A forced cast that fails stops the app. Each appended ad is followed by a reload. -/
def answered (pl : Platform Double Location) (c : ListController) (docs : List Fields)
    (s : ListState Double Location) : Option (ListState Double Location) :=
  match c.load pl s.location docs s.privateAds with
  | .error _ => none
  | .ok ads =>
    if ads.length = s.privateAds.length then some { s with privateAds := ads }
    else some (reloadData { s with privateAds := ads })

def sortSegmentPressed (pl : Platform Double Location) (s : ListState Double Location) :
    ListState Double Location :=
  match s.selectedSegmentIndex with
  | 0 => reloadData { s with privateAds := sortByTitle pl s.privateAds }
  | 1 => reloadData { s with
      privateAds := sort (fun a b => pl.nearer a.sortDistance b.sortDistance) s.privateAds }
  | _ => s

def step (pl : Platform Double Location) (c : ListController) (s : ListState Double Location) :
    ListEvent Location → Option (ListState Double Location)
  | .appear user => some (s.appear c user)
  | .answer a docs =>
    if docs.all a.query.selects then (s.take a).bind (answered pl c docs) else none
  | .fail a => s.take a
  | .locate location => if c = .search then some { s with location := some location } else none
  | .sortSegmentPressed segment =>
    if c = .search then some (sortSegmentPressed pl { s with selectedSegmentIndex := segment })
    else none

end ListState

/-- The documents that an event brings. -/
def ListEvent.docs : ListEvent Location → List Fields
  | .answer _ docs => docs
  | _ => []

/-- The ads that a document list has for a loader. -/
def decodable (docs : List Fields) : List (DefaultAds Unit) := docs.filterMap (readAd Value.asBool)

namespace ListState

section Step

variable {pl : Platform Double Location} {c : ListController} {s t : ListState Double Location}
  {e : ListEvent Location} {es : List (ListEvent Location)} {a : Asked} {docs : List Fields}

theorem load_unplaced {ads : List (DefaultAds Double)}
    (h : c.load pl s.location docs s.privateAds = .ok ads) :
    (ads.map DefaultAds.unplaced).Perm
      (s.privateAds.map DefaultAds.unplaced ++ decodable docs) := by
  cases c with
  | search => exact (search_reads pl s.location).collect_unplaced (sortByTitle_perm pl) h
  | favorites => exact (favorite_reads pl).collect_unplaced (sortByTitle_perm pl) h
  | home => exact (home_reads pl).collect_unplaced (fun l => .refl l) h

theorem take_eq_some : s.take a = some t ↔
    a ∈ s.queries ∧ t = { s with queries := s.queries.erase a } := by
  rw [ListState.take, Option.ite_none_right_eq_some, Option.some.injEq, eq_comm (b := t)]

theorem answered_some (h : answered pl c docs s = some t) :
    c.load pl s.location docs s.privateAds = .ok t.privateAds ∧ t.queries = s.queries ∧
      t.issued = s.issued := by
  unfold answered at h
  split at h
  · contradiction
  · rename_i ads hads
    split at h <;>
    · cases h
      exact ⟨hads, rfl, rfl⟩

theorem sortSegmentPressed_keeps (pl : Platform Double Location) (s : ListState Double Location) :
    (sortSegmentPressed pl s).privateAds.Perm s.privateAds ∧
      (sortSegmentPressed pl s).queries = s.queries ∧
      (sortSegmentPressed pl s).issued = s.issued := by
  unfold sortSegmentPressed
  split
  · exact ⟨sortByTitle_perm pl _, rfl, rfl⟩
  · exact ⟨sort_perm _ _, rfl, rfl⟩
  · exact ⟨.refl _, rfl, rfl⟩

/-- What a step does to the list, to the queries under way and to their count. -/
inductive Stepped (c : ListController) (s t : ListState Double Location) : ListEvent Location → Prop
  | appear {user : Option User} (ads : t.privateAds = []) (issued : t.issued = s.issued + 1)
      (queries : t.queries = s.queries ++ [⟨s.issued, c.query user⟩]) : Stepped c s t (.appear user)
  | answer {a : Asked} {docs : List Fields} (mem : a ∈ s.queries) (issued : t.issued = s.issued)
      (queries : t.queries = s.queries.erase a)
      (ads : (t.privateAds.map DefaultAds.unplaced).Perm
        (s.privateAds.map DefaultAds.unplaced ++ decodable docs)) : Stepped c s t (.answer a docs)
  | fail {a : Asked} (mem : a ∈ s.queries) (issued : t.issued = s.issued)
      (queries : t.queries = s.queries.erase a) (ads : t.privateAds = s.privateAds) :
      Stepped c s t (.fail a)
  | locate {location : Location} (issued : t.issued = s.issued) (queries : t.queries = s.queries)
      (ads : t.privateAds.Perm s.privateAds) : Stepped c s t (.locate location)
  | sort {segment : Nat} (issued : t.issued = s.issued) (queries : t.queries = s.queries)
      (ads : t.privateAds.Perm s.privateAds) : Stepped c s t (.sortSegmentPressed segment)

theorem step_stepped (h : step pl c s e = some t) : Stepped c s t e := by
  cases e with
  | appear user =>
    cases h
    exact .appear rfl rfl rfl
  | answer a docs =>
    simp only [step] at h
    split at h
    · obtain ⟨u, hu, hanswered⟩ := Option.bind_eq_some_iff.mp h
      obtain ⟨hmem, rfl⟩ := take_eq_some.mp hu
      obtain ⟨hload, hqueries, hissued⟩ := answered_some hanswered
      exact .answer hmem hissued hqueries (load_unplaced hload)
    · contradiction
  | fail a =>
    obtain ⟨hmem, rfl⟩ := take_eq_some.mp h
    exact .fail hmem rfl rfl rfl
  | locate location =>
    simp only [step] at h
    split at h
    · cases h
      exact .locate rfl rfl (.refl _)
    · contradiction
  | sortSegmentPressed segment =>
    simp only [step] at h
    split at h
    · cases h
      obtain ⟨hads, hqueries, hissued⟩ :=
        sortSegmentPressed_keeps pl { s with selectedSegmentIndex := segment }
      exact .sort hissued hqueries hads
    · contradiction

/-- The queries under way are distinct and have been issued. -/
structure Numbered (s : ListState Double Location) : Prop where
  distinct : s.queries.Nodup
  issued : ∀ a ∈ s.queries, a.number < s.issued

theorem Numbered.erase (h : Numbered s) (hissued : t.issued = s.issued)
    (hqueries : t.queries = s.queries.erase a) : Numbered t := by
  refine ⟨by rw [hqueries]; exact h.distinct.erase a, fun b hb => ?_⟩
  rw [hqueries] at hb
  rw [hissued]
  exact h.issued b (List.mem_of_mem_erase hb)

theorem step_numbered (hs : Numbered s) (h : step pl c s e = some t) : Numbered t := by
  cases step_stepped h with
  | appear ads issued queries =>
    constructor
    · rw [queries]
      refine hs.distinct.append (List.nodup_singleton _) ?_
      intro a ha hnew
      rw [List.mem_singleton] at hnew
      have hlt := hs.issued a ha
      rw [hnew] at hlt
      exact absurd hlt (lt_irrefl _)
    · intro a ha
      rw [queries, List.mem_append, List.mem_singleton] at ha
      rw [issued]
      rcases ha with ha | rfl
      · have hlt := hs.issued a ha
        omega
      · simp
  | answer mem issued queries ads => exact hs.erase issued queries
  | fail mem issued queries ads => exact hs.erase issued queries
  | locate issued queries ads | sort issued queries ads =>
    exact ⟨queries ▸ hs.distinct, by rw [queries, issued]; exact hs.issued⟩

end Step

section Run

variable {pl : Platform Double Location} {c : ListController} {s t : ListState Double Location}
  {e : ListEvent Location} {es : List (ListEvent Location)} {a : Asked} {docs : List Fields}

/-- Without an appearance the documents of the answers are appended, in whatever order they come. -/
theorem run_appends (hes : ∀ user, .appear user ∉ es) (h : run (step pl c) s es = some t) :
    t.issued = s.issued ∧ (t.privateAds.map DefaultAds.unplaced).Perm
      (s.privateAds.map DefaultAds.unplaced ++ decodable (es.flatMap ListEvent.docs)) := by
  induction es generalizing s with
  | nil =>
    cases h
    simp [decodable]
  | cons e es ih =>
    obtain ⟨u, hu, hrest⟩ := run_cons.mp h
    obtain ⟨hissued, hperm⟩ := ih (fun user hm => hes user (List.mem_cons_of_mem _ hm)) hrest
    have hstep : u.issued = s.issued ∧ (u.privateAds.map DefaultAds.unplaced).Perm
        (s.privateAds.map DefaultAds.unplaced ++ decodable e.docs) := by
      cases step_stepped hu with
      | @appear user => exact absurd List.mem_cons_self (hes user)
      | answer mem issued queries ads => exact ⟨issued, ads⟩
      | fail mem issued queries ads =>
        rw [ads]
        simp [ListEvent.docs, decodable, issued]
      | locate issued queries ads | sort issued queries ads =>
        simpa [ListEvent.docs, decodable, issued] using ads.map DefaultAds.unplaced
    refine ⟨hissued.trans hstep.1, ?_⟩
    rw [List.flatMap_cons, decodable, List.filterMap_append, ← List.append_assoc]
    exact hperm.trans (hstep.2.append_right _)

/-- A step other than an appearance sends no query, and a query is under way when its answer
comes. -/
theorem step_queries (he : ∀ user, e ≠ .appear user) (h : step pl c s e = some t) :
    (∀ b ∈ t.queries, b ∈ s.queries) ∧ ∀ docs, e = .answer a docs → a ∈ s.queries := by
  cases step_stepped h with
  | @appear user => exact absurd rfl (he user)
  | answer mem issued queries ads =>
    refine ⟨fun b hb => List.mem_of_mem_erase (queries ▸ hb), fun docs hdocs => ?_⟩
    cases hdocs
    exact mem
  | fail mem issued queries ads =>
    exact ⟨fun b hb => List.mem_of_mem_erase (queries ▸ hb), fun docs hdocs => by contradiction⟩
  | locate issued queries ads | sort issued queries ads =>
    exact ⟨fun b hb => queries ▸ hb, fun docs hdocs => by contradiction⟩

/-- A query that is not under way gets no answer before the next appearance. -/
theorem run_not_answered (hes : ∀ user, .appear user ∉ es) (ha : a ∉ s.queries)
    (h : run (step pl c) s es = some t) : ∀ docs, .answer a docs ∉ es := by
  induction es generalizing s with
  | nil => simp
  | cons e es ih =>
    obtain ⟨u, hu, hrest⟩ := run_cons.mp h
    have he : ∀ user, e ≠ .appear user := fun user he => hes user (by simp [he])
    obtain ⟨hkept, hanswer⟩ := step_queries (a := a) he hu
    intro docs hdocs
    rcases List.mem_cons.mp hdocs with hfirst | hlater
    · exact ha (hanswer docs hfirst.symm)
    · exact ih (fun user hm => hes user (List.mem_cons_of_mem _ hm)) (fun hm => ha (hkept a hm))
        hrest docs hlater

/-- Without an appearance a query that is under way, does not fail and is not under way in the end
has been answered, once. -/
theorem run_answers (hes : ∀ user, .appear user ∉ es) (hfail : .fail a ∉ es)
    (hs : Numbered s) (ha : a ∈ s.queries) (h : run (step pl c) s es = some t)
    (hdone : a ∉ t.queries) : ∃ before docs after, es = before ++ .answer a docs :: after ∧
      ∀ docs', .answer a docs' ∉ before ++ after := by
  induction es generalizing s with
  | nil =>
    cases h
    exact absurd ha hdone
  | cons e es ih =>
    obtain ⟨u, hu, hrest⟩ := run_cons.mp h
    have hes' : ∀ user, .appear user ∉ es := fun user hm => hes user (List.mem_cons_of_mem _ hm)
    have hfail' : .fail a ∉ es := fun hm => hfail (List.mem_cons_of_mem _ hm)
    by_cases he : ∃ docs, e = .answer a docs
    · obtain ⟨docs, rfl⟩ := he
      refine ⟨[], docs, es, rfl, run_not_answered hes' ?_ hrest⟩
      cases step_stepped hu with
      | answer mem issued queries ads =>
        rw [queries]
        exact fun hm => (hs.distinct.mem_erase_iff.mp hm).1 rfl
    · have hkept : a ∈ u.queries := by
        cases step_stepped hu with
        | @appear user => exact absurd List.mem_cons_self (hes user)
        | @answer b docs mem issued queries ads =>
          rw [queries]
          exact (List.mem_erase_of_ne fun hab => he ⟨docs, by rw [hab]⟩).mpr ha
        | @fail b mem issued queries ads =>
          rw [queries]
          exact (List.mem_erase_of_ne fun hab => hfail (by simp [hab])).mpr ha
        | locate issued queries ads | sort issued queries ads => exact queries ▸ ha
      obtain ⟨before, docs, after, rfl, honce⟩ := ih hes' hfail' (step_numbered hs hu) hkept hrest
      refine ⟨e :: before, docs, after, rfl, fun docs' hm => ?_⟩
      rcases List.mem_cons.mp hm with hfirst | hlater
      · exact he ⟨docs', hfirst.symm⟩
      · exact honce docs' hlater

theorem decodable_nil : decodable (es.flatMap ListEvent.docs) = [] ↔
    ∀ a docs, .answer a docs ∈ es → decodable docs = [] := by
  simp only [decodable, List.filterMap_eq_nil_iff, List.mem_flatMap]
  constructor
  · exact fun h a docs hm data hdata => h data ⟨_, hm, hdata⟩
  · rintro h data ⟨e, he, hdata⟩
    cases e with
    | answer a docs => exact h a docs he data hdata
    | _ => simp [ListEvent.docs] at hdata

/-- The list has the ads of the answer to the newest query of the run, which came in `es`. -/
def Refreshed (s : ListState Double Location) (es : List (ListEvent Location)) : Prop :=
  ∃ a docs, .answer a docs ∈ es ∧ a.number + 1 = s.issued ∧
    (s.privateAds.map DefaultAds.unplaced).Perm (decodable docs)

/-- Of the answers after the last appearance one is to its query; the others are to earlier queries,
and the list has the ads of all. -/
theorem run_last {before after : List (ListEvent Location)} {user : Option User}
    (hrun : run (step pl c) fresh (before ++ .appear user :: after) = some s)
    (hlast : ∀ user, .appear user ∉ after) (hok : ∀ a, .fail a ∉ after) (hdone : s.queries = []) :
    ∃ a first docs last, after = first ++ .answer a docs :: last ∧ a.number + 1 = s.issued ∧
      (∀ b docs', .answer b docs' ∈ first ++ last → b.number + 1 < s.issued) ∧
      (s.privateAds.map DefaultAds.unplaced).Perm
        (decodable docs ++ decodable ((first ++ last).flatMap ListEvent.docs)) := by
  obtain ⟨u, hbefore, hrest⟩ := run_append.mp hrun
  obtain ⟨v, hv, hafter⟩ := run_cons.mp hrest
  have hu : Numbered u := run_preserves (fun s e t hs => step_numbered hs)
    ⟨List.nodup_nil, by simp [fresh]⟩ hbefore
  have hnumbered := step_numbered hu hv
  cases hv
  obtain ⟨hissued, hads⟩ := run_appends hlast hafter
  obtain ⟨first, docs, last, rfl, honce⟩ := run_answers hlast (hok ⟨u.issued, c.query user⟩)
    hnumbered (by simp [appear, reloadData]) hafter (by simp [hdone])
  have hnewest : s.issued = u.issued + 1 := hissued
  refine ⟨⟨u.issued, c.query user⟩, first, docs, last, rfl, hnewest.symm, fun b docs' hm => ?_, ?_⟩
  · have hasked : b ∈ (u.appear c user).queries := by
      by_contra hnot
      refine run_not_answered hlast hnot hafter docs' ?_
      rcases List.mem_append.mp hm with hm | hm <;> simp [hm]
    simp only [appear, reloadData, List.mem_append, List.mem_singleton] at hasked
    rcases hasked with hold | rfl
    · have hlt := hu.issued b hold
      omega
    · exact absurd hm (honce docs')
  · refine hads.trans ?_
    simp only [decodable, appear, reloadData, List.map_nil, List.nil_append, List.flatMap_append,
      List.flatMap_cons, List.filterMap_append, ListEvent.docs]
    exact List.perm_append_comm_assoc _ _ _

theorem perm_iff_nil {α : Type} {l first rest : List α} (h : l.Perm (first ++ rest)) :
    l.Perm first ↔ rest = [] := by
  constructor
  · intro hfirst
    have hlength := h.length_eq
    rw [hfirst.length_eq, List.length_append] at hlength
    exact List.length_eq_zero_iff.mp (by omega)
  · rintro rfl
    rwa [List.append_nil] at h

/-- When all queries have been answered, the list has the ads of the last query's answer exactly
when each answer to an earlier query that came after the last appearance had none. -/
theorem refreshed_iff {before after : List (ListEvent Location)} {user : Option User}
    (hrun : run (step pl c) fresh (before ++ .appear user :: after) = some s)
    (hlast : ∀ user, .appear user ∉ after) (hok : ∀ a, .fail a ∉ after) (hdone : s.queries = []) :
    Refreshed s after ↔ ∀ a docs, .answer a docs ∈ after → a.number + 1 < s.issued →
      decodable docs = [] := by
  obtain ⟨a, first, docs, last, rfl, hnewest, hearlier, hads⟩ := run_last hrun hlast hok hdone
  have hanswers : ∀ b docs', .answer b docs' ∈ first ++ .answer a docs :: last ↔
      (b = a ∧ docs' = docs) ∨ .answer b docs' ∈ first ++ last := by
    intro b docs'
    simp only [List.mem_append, List.mem_cons, ListEvent.answer.injEq]
    tauto
  calc
    Refreshed s (first ++ .answer a docs :: last)
      ↔ (s.privateAds.map DefaultAds.unplaced).Perm (decodable docs) := by
        constructor
        · rintro ⟨b, docs', hm, hnumber, hperm⟩
          rcases (hanswers b docs').mp hm with ⟨rfl, rfl⟩ | hother
          · exact hperm
          · have hlt := hearlier b docs' hother
            omega
        · exact fun hperm => ⟨a, docs, by simp, hnewest, hperm⟩
    _ ↔ decodable ((first ++ last).flatMap ListEvent.docs) = [] := perm_iff_nil hads
    _ ↔ ∀ b docs', .answer b docs' ∈ first ++ last → decodable docs' = [] := decodable_nil
    _ ↔ ∀ b docs', .answer b docs' ∈ first ++ .answer a docs :: last → b.number + 1 < s.issued →
        decodable docs' = [] := by
        constructor
        · intro h b docs' hm hlt
          rcases (hanswers b docs').mp hm with ⟨rfl, rfl⟩ | hother
          · omega
          · exact h b docs' hother
        · exact fun h b docs' hm => h b docs' ((hanswers b docs').mpr (Or.inr hm))
            (hearlier b docs' hm)

end Run

end ListState

open ListState

/-- An ad of Alice that she has among her favourites: each of the three queries finds it. -/
def alicesFavourite : Fields :=
  Function.update (AdData.sample "Velo" "A" alice.mail).fields alice.uid.name (some (.string ""))

def alicesAnswer (c : ListController) (number : Nat) : ListEvent (Int × Int) :=
  .answer ⟨number, c.query (some alice)⟩ [alicesFavourite]

/-- When the first answer comes before the second appearance, the list has the ad once. -/
theorem refreshed_inOrder : ∃ s,
    run (step flatEarth .search) fresh ([.appear (some alice), alicesAnswer .search 0] ++
      .appear (some alice) :: [alicesAnswer .search 1]) = some s ∧
    Refreshed s [alicesAnswer .search 1] := by
  obtain ⟨s, hrun, hdone, hissued⟩ : ∃ s,
      run (step flatEarth .search) fresh ([.appear (some alice), alicesAnswer .search 0] ++
        .appear (some alice) :: [alicesAnswer .search 1]) = some s ∧ s.queries = [] ∧ s.issued = 2 :=
    ⟨_, rfl, rfl, rfl⟩
  refine ⟨s, hrun, (refreshed_iff hrun (by simp [alicesAnswer]) (by simp [alicesAnswer]) hdone).mpr ?_⟩
  intro a docs hm hlt
  rw [alicesAnswer, List.mem_singleton, ListEvent.answer.injEq] at hm
  obtain ⟨rfl, rfl⟩ := hm
  rw [hissued] at hlt
  exact absurd hlt (lt_irrefl _)

/-- Each list, when it appears a second time before the first answer has come, has the ad twice. -/
theorem comesBack_twice (c : ListController) : ∃ s,
    run (step flatEarth c) fresh ([.appear (some alice)] ++ .appear (some alice) ::
      [alicesAnswer c 0, alicesAnswer c 1]) = some s ∧ s.queries = [] ∧
    ¬Refreshed s [alicesAnswer c 0, alicesAnswer c 1] := by
  obtain ⟨s, hrun, hdone, htwice⟩ : ∃ s,
      run (step flatEarth c) fresh ([.appear (some alice)] ++ .appear (some alice) ::
        [alicesAnswer c 0, alicesAnswer c 1]) = some s ∧ s.queries = [] ∧ s.privateAds.length = 2 := by
    cases c <;> exact ⟨_, rfl, rfl, rfl⟩
  refine ⟨s, hrun, hdone, ?_⟩
  rintro ⟨a, docs, hm, -, hperm⟩
  have honce : (decodable docs).length = 1 := by
    simp only [alicesAnswer, List.mem_cons, ListEvent.answer.injEq, List.not_mem_nil, or_false] at hm
    rcases hm with ⟨-, rfl⟩ | ⟨-, rfl⟩ <;> rfl
  have hlength := hperm.length_eq
  rw [List.length_map, htwice, honce] at hlength
  contradiction

theorem searchList_twice : ∃ s,
    run (step flatEarth .search) fresh ([.appear (some alice)] ++ .appear (some alice) ::
      [alicesAnswer .search 0, alicesAnswer .search 1]) = some s ∧ s.queries = [] ∧
    ¬Refreshed s [alicesAnswer .search 0, alicesAnswer .search 1] := comesBack_twice .search

end VoisinMalin
