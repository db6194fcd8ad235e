import VoisinMalin.Firestore.ObjectValue

/-! Setting, patching and deleting the fields of a document. `SetAll` gathers the entries of a patch
that are in one map and makes their changes at once. When its entries lie apart and no two of them
delete from one map, the document has what they say at their paths and keeps the rest. -/

namespace VoisinMalin

open SortedMap

namespace ObjectValue

/-- The patch of `SetAll`: the value of each path, or its deletion. -/
abbrev TransformMap := List (FieldPath × Option UserData)

def IsImmediateParentOf (parent path : FieldPath) : Bool :=
  path.length == parent.length + 1 && parent.isPrefixOf path

/-- `ParentMap` and `ApplyChanges` one after the other. -/
def applyAt (o : ObjectValue) (parent : FieldPath) (c : Changes) : ObjectValue where
  fields := ParentMap (fun m => ApplyChanges m c.upserts c.deletes) parent o.fields
  inOrder := inOrder_parentMap (fun _ => inOrder_applyChanges c.ascending c.dictionaries) o.inOrder

def Set (o : ObjectValue) (path : FieldPath) (value : UserData) : ObjectValue :=
  o.applyAt path.dropLast (Changes.none.upsert (path.getLastD "") value)

def SetAll.loop : TransformMap → FieldPath → Changes → ObjectValue → ObjectValue
  | [], parent, c, o => o.applyAt parent c
  | (path, value) :: data, parent, c, o =>
    if IsImmediateParentOf parent path then loop data parent (c.add (path.getLastD "") value) o
    else
      loop data path.dropLast (Changes.none.add (path.getLastD "") value) (o.applyAt parent c)

def SetAll (o : ObjectValue) (data : TransformMap) : ObjectValue :=
  SetAll.loop data [] Changes.none o

def Delete (o : ObjectValue) (path : FieldPath) : ObjectValue :=
  let c := Changes.none.delete (path.getLastD "")
  { fields := Delete.loop (fun m => ApplyChanges m c.upserts c.deletes) path.dropLast o.fields
    inOrder := inOrder_delete (fun _ => inOrder_applyChanges c.ascending c.dictionaries) o.inOrder }

/-- Neither path leads through the other. -/
def Apart (p q : FieldPath) : Prop := ¬p <+: q ∧ ¬q <+: p

/-- `after` has what the patch says at its paths, and what `before` has at the paths apart from
these. -/
structure Patched (data : FieldPath → Option UserData → Prop) (before after : ObjectValue) :
    Prop where
  set : ∀ path v, data path (some v) → ∀ r, after.Get (path ++ r) = Get.loop r (SortFields v.1)
  deleted : ∀ path, data path none → ∀ r, after.Get (path ++ r) = none
  others : ∀ q, (∀ path value, data path value → Apart path q) → after.Get q = before.Get q

end ObjectValue

/-- The change of `key` among the changes. -/
def Changes.Holds (c : Changes) (key : String) : Option UserData → Prop
  | some v => find key c.upserts = some v.1
  | .none => key ∈ c.deletes

namespace ObjectValue

/-- The changes below `parent`, as a patch. -/
def pending (parent : FieldPath) (c : Changes) (path : FieldPath) (value : Option UserData) : Prop :=
  ∃ key, path = parent ++ [key] ∧ c.Holds key value

section SetAll

variable {o o' o'' : ObjectValue} {parent path q r : FieldPath} {c : Changes} {key k : String}
  {P Q : FieldPath → Option UserData → Prop} {value : Option UserData}

theorem find_applyAt {fields : Entries} (h : Sorted fields)
    (hone : ∀ d ∈ c.deletes, ∀ d' ∈ c.deletes, d = d')
    (hdisjoint : ∀ d ∈ c.deletes, d ∉ keys c.upserts) :
    find k (ApplyChanges fields c.upserts c.deletes) =
      if k ∈ c.deletes then none else ((find k c.upserts).map SortFields).or (find k fields) := by
  have hfree : Unobstructed fields c.upserts c.deletes := by
    intro d hd _ d' hd' hlt
    exact absurd (hone d hd d' hd') (ne_of_lt hlt)
  rw [(applyChanges_eq_changed h c.ascending hdisjoint).mpr hfree,
    find_changed c.ascending hdisjoint, find_prepared]

theorem eq_none_of_not_holds (h : ¬∃ key value, c.Holds key value) : c = Changes.none := by
  have hupserts : c.upserts = [] := by
    refine List.eq_nil_iff_forall_not_mem.mpr fun e he => ?_
    exact h ⟨e.1, some ⟨e.2, c.dictionaries e he⟩, find_of_mem c.ascending he⟩
  have hdeletes : c.deletes = ∅ :=
    Finset.eq_empty_of_forall_notMem fun d hd => h ⟨d, .none, hd⟩
  cases c
  simp_all [Changes.none]

theorem applyChanges_none {fields : Entries} (h : Sorted fields) :
    ApplyChanges fields Changes.none.upserts Changes.none.deletes = fields := by
  have hempty : ∀ d ∈ Changes.none.deletes, d ∉ keys Changes.none.upserts := by simp [Changes.none]
  refine ext (sorted_applyChanges h Changes.none.ascending) h fun k => ?_
  rw [find_applyAt h (by simp [Changes.none]) hempty]
  simp [Changes.none]

/-- The changes below `parent` do what the patch of them says. -/
theorem applyAt_patched (hone : ∀ d ∈ c.deletes, ∀ d' ∈ c.deletes, d = d')
    (hdisjoint : ∀ d ∈ c.deletes, d ∉ keys c.upserts)
    (hstart : parent = [] ∨ ∃ key value, c.Holds key value) :
    Patched (pending parent c) o (o.applyAt parent c) := by
  have hget (key : String) (r : FieldPath) : (o.applyAt parent c).Get (parent ++ key :: r) =
      (if key ∈ c.deletes then none
        else ((find key c.upserts).map SortFields).or (find key (asMap (o.Get parent)))).bind
        (Get.loop r) := by
    have hsorted : Sorted (asMap (o.Get parent)) :=
      (inOrder_map.mp (inOrder_asMap fun v hv => inOrder_get o.inOrder hv)).1
    rw [Get, applyAt, get_parentMap o.inOrder]
    exact congrArg (Option.bind · (Get.loop r)) (find_applyAt hsorted hone hdisjoint)
  constructor
  · rintro _ v ⟨key, rfl, hkey⟩ r
    have hfind : find key c.upserts = some v.1 := hkey
    have hnot : key ∉ c.deletes := fun hd =>
      hdisjoint key hd (mem_keys.mpr ⟨v.1, mem_of_find hfind⟩)
    rw [List.append_assoc, List.singleton_append, hget, if_neg hnot, hfind]
    rfl
  · rintro _ ⟨key, rfl, hkey⟩ r
    have hdelete : key ∈ c.deletes := hkey
    rw [List.append_assoc, List.singleton_append, hget, if_pos hdelete]
    rfl
  · intro q hq
    by_cases hchanges : ∃ key value, c.Holds key value
    · obtain ⟨key, value, hkey⟩ := hchanges
      have hpending := hq _ value ⟨key, rfl, hkey⟩
      have hbelow : ¬q <+: parent := fun h => hpending.2 (h.trans (List.prefix_append _ _))
      by_cases hparent : parent <+: q
      · obtain ⟨t, rfl⟩ := hparent
        cases t with
        | nil => exact absurd (by simp) hbelow
        | cons k r =>
          have hk : ∀ value, ¬c.Holds k value := fun value hk =>
            (hq _ value ⟨k, rfl, hk⟩).1 (by simp)
          have hfind : find k c.upserts = none := by
            cases hfound : find k c.upserts with
            | none => rfl
            | some v =>
              exact absurd hfound (hk (some ⟨v, c.dictionaries _ (mem_of_find hfound)⟩))
          have hnot : k ∉ c.deletes := hk .none
          have hold : o.Get (parent ++ k :: r) =
              (find k (asMap (o.Get parent))).bind (Get.loop r) := by
            rw [Get, get_append, ← get_asMap (by simp)]
            rfl
          rw [hget, if_neg hnot, hfind, Option.map_none, Option.none_or, hold]
      · exact get_parentMap_of_not_prefix o.inOrder hparent hbelow
    · rw [eq_none_of_not_holds hchanges, hstart.resolve_right hchanges]
      exact congrArg (fun fields => Get.loop q (.map fields))
        (applyChanges_none (inOrder_map.mp o.inOrder).1)

theorem Apart.append_left {p : FieldPath} (h : Apart p q) (r : FieldPath) : Apart q (p ++ r) := by
  refine ⟨fun hq => ?_, fun hp => h.1 ((List.prefix_append p r).trans hp)⟩
  exact (List.prefix_or_prefix_of_prefix (List.prefix_append p r) hq).elim h.1 h.2

/-- Entries at one path are the same, and others lie apart. -/
def Compatible (P Q : FieldPath → Option UserData → Prop) : Prop :=
  ∀ p v q w, P p v → Q q w → p = q ∧ v = w ∨ Apart p q

/-- Two patches one after the other are the patch with the entries of both. -/
theorem Patched.trans (h : Patched P o o') (h' : Patched Q o' o'') (hPQ : Compatible P Q) :
    Patched (fun p v => P p v ∨ Q p v) o o'' := by
  have hkeep : ∀ p v, P p v → Q p v ∨ ∀ r, o''.Get (p ++ r) = o'.Get (p ++ r) := by
    intro p v hp
    by_cases hsame : ∃ w, Q p w
    · obtain ⟨w, hw⟩ := hsame
      rcases hPQ p v p w hp hw with ⟨-, rfl⟩ | hapart
      · exact Or.inl hw
      · exact absurd List.prefix_rfl hapart.1
    · refine Or.inr fun r => h'.others _ fun q w hq => ?_
      rcases hPQ p v q w hp hq with ⟨rfl, -⟩ | hapart
      · exact absurd ⟨w, hq⟩ hsame
      · exact hapart.append_left r
  constructor
  · rintro path v (hp | hq) r
    · rcases hkeep path _ hp with hq | hsame
      · exact h'.set path v hq r
      · rw [hsame, h.set path v hp]
    · exact h'.set path v hq r
  · rintro path (hp | hq) r
    · rcases hkeep path _ hp with hq | hsame
      · exact h'.deleted path hq r
      · rw [hsame, h.deleted path hp]
    · exact h'.deleted path hq r
  · intro q hq
    rw [h'.others q fun p v hp => hq p v (Or.inr hp), h.others q fun p v hp => hq p v (Or.inl hp)]

theorem holds_add (h : ∀ v, c.Holds key v → v = value) {v : Option UserData} :
    (c.add key value).Holds k v ↔ k = key ∧ v = value ∨ c.Holds k v := by
  cases value with
  | none =>
    cases v with
    | none => simp [Changes.add, Changes.delete, Changes.Holds]
    | some w => simp [Changes.add, Changes.delete, Changes.Holds]
  | some u =>
    cases v with
    | none => simp [Changes.add, Changes.upsert, Changes.Holds]
    | some w =>
      have hadd : (c.add key (some u)).Holds k (some w) ↔
          ((find k [(key, u.1)]).or (find k c.upserts)) = some w.1 := by
        simp only [Changes.Holds, Changes.add, Changes.upsert,
          find_merge (List.pairwise_singleton _ (key, u.1))]
      rw [hadd, find_cons]
      by_cases hk : key = k
      · subst hk
        simp only [if_true, Option.some_or, Option.some.injEq, true_and]
        constructor
        · intro hw
          exact Or.inl (Subtype.ext hw.symm)
        · rintro (rfl | hw)
          · rfl
          · cases h _ hw
            rfl
      · simp [hk, Ne.symm hk, Changes.Holds]

theorem pending_add (h : ∀ v, c.Holds key v → v = value) {v : Option UserData} :
    pending parent (c.add key value) path v ↔
      pending parent c path v ∨ path = parent ++ [key] ∧ v = value := by
  constructor
  · rintro ⟨k, rfl, hk⟩
    rcases (holds_add h).mp hk with ⟨rfl, rfl⟩ | hk
    · exact Or.inr ⟨rfl, rfl⟩
    · exact Or.inl ⟨k, rfl, hk⟩
  · rintro (⟨k, rfl, hk⟩ | ⟨rfl, rfl⟩)
    · exact ⟨k, rfl, (holds_add h).mpr (Or.inr hk)⟩
    · exact ⟨key, rfl, (holds_add h).mpr (Or.inl ⟨rfl, rfl⟩)⟩

theorem append_getLastD (h : IsImmediateParentOf parent path = true) :
    path = parent ++ [path.getLastD ""] := by
  rw [IsImmediateParentOf, Bool.and_eq_true, beq_iff_eq, List.isPrefixOf_iff_prefix] at h
  obtain ⟨hlength, t, rfl⟩ := h
  rw [List.length_append] at hlength
  obtain ⟨key, rfl⟩ := List.length_eq_one_iff.mp (show t.length = 1 by omega)
  simp

theorem dropLast_getLastD (h : path ≠ []) : path = path.dropLast ++ [path.getLastD ""] := by
  rw [List.getLastD_eq_getLast?, List.getLast?_eq_some_getLast h, Option.getD_some,
    List.dropLast_append_getLast]

/-- What may go together in one patch: its entries lie apart, and no two deletes are in one map. -/
structure Orderly (P : FieldPath → Option UserData → Prop) : Prop where
  compatible : Compatible P P
  oneDelete : ∀ p q, P p .none → P q .none → p.dropLast = q.dropLast → p = q

theorem Orderly.mono (h : Orderly Q) (hPQ : ∀ p v, P p v → Q p v) : Orderly P where
  compatible p v q w hp hq := h.compatible p v q w (hPQ p v hp) (hPQ q w hq)
  oneDelete p q hp hq := h.oneDelete p q (hPQ p _ hp) (hPQ q _ hq)

theorem Orderly.applyAt (h : Orderly (pending parent c))
    (hstart : parent = [] ∨ ∃ key value, c.Holds key value) :
    Patched (pending parent c) o (o.applyAt parent c) := by
  refine applyAt_patched (fun d hd d' hd' => ?_) (fun d hd hupsert => ?_) hstart
  · have hsame := h.oneDelete _ _ ⟨d, rfl, hd⟩ ⟨d', rfl, hd'⟩ (by simp)
    simpa using hsame
  · obtain ⟨v, hv⟩ := mem_keys.mp hupsert
    have hholds : c.Holds d (some ⟨v, c.dictionaries _ hv⟩) := find_of_mem c.ascending hv
    have hdelete : c.Holds d .none := hd
    rcases h.compatible _ _ _ _ ⟨d, rfl, hdelete⟩ ⟨d, rfl, hholds⟩ with ⟨-, hnone⟩ | hapart
    · contradiction
    · exact hapart.1 List.prefix_rfl

theorem not_holds_none (value : Option UserData) : ¬Changes.none.Holds k value := by
  cases value <;> simp [Changes.none, Changes.Holds]

/-- The loop of `SetAll` does what the changes that it has gathered and the rest of the patch say. -/
theorem setAll_loop {data : TransformMap}
    (h : Orderly fun p v => pending parent c p v ∨ (p, v) ∈ data) (hpath : ∀ e ∈ data, e.1 ≠ [])
    (hstart : parent = [] ∨ ∃ key value, c.Holds key value) :
    Patched (fun p v => pending parent c p v ∨ (p, v) ∈ data) o (SetAll.loop data parent c o) := by
  induction data generalizing parent c o with
  | nil =>
    simpa [SetAll.loop] using (h.mono fun _ _ => Or.inl).applyAt hstart
  | cons e data ih =>
    obtain ⟨path, value⟩ := e
    have hrest : ∀ e ∈ data, e.1 ≠ [] := fun e he => hpath e (List.mem_cons_of_mem _ he)
    rw [SetAll.loop]
    split
    · rename_i hparent
      have hpath := append_getLastD hparent
      have hsame : ∀ v, c.Holds (path.getLastD "") v → v = value := by
        intro v hv
        have hcases := h.compatible _ _ path value (Or.inl ⟨_, rfl, hv⟩) (Or.inr List.mem_cons_self)
        rw [← hpath] at hcases
        exact hcases.elim And.right fun hapart => absurd List.prefix_rfl hapart.1
      have hentries : (fun p v => pending parent c p v ∨ (p, v) ∈ (path, value) :: data) =
          fun p v => pending parent (c.add (path.getLastD "") value) p v ∨ (p, v) ∈ data := by
        funext p v
        rw [pending_add hsame, ← hpath, List.mem_cons, Prod.mk.injEq, or_assoc]
      rw [hentries] at h ⊢
      exact ih h hrest (Or.inr ⟨_, value, (holds_add hsame).mpr (Or.inl ⟨rfl, rfl⟩)⟩)
    · have hpath := dropLast_getLastD (hpath _ List.mem_cons_self)
      have hsame : ∀ v, Changes.none.Holds (path.getLastD "") v → v = value :=
        fun v hv => absurd hv (not_holds_none v)
      have hentries : (fun p v => (p, v) ∈ (path, value) :: data) = fun p v =>
          pending path.dropLast (Changes.none.add (path.getLastD "") value) p v ∨ (p, v) ∈ data := by
        funext p v
        rw [pending_add hsame, ← hpath, List.mem_cons, Prod.mk.injEq]
        simp [pending, not_holds_none]
      have hlater := ih (o := o.applyAt parent c) (hentries ▸ h.mono fun _ _ => Or.inr) hrest
        (Or.inr ⟨_, value, (holds_add hsame).mpr (Or.inl ⟨rfl, rfl⟩)⟩)
      rw [← hentries] at hlater
      refine ((h.mono fun _ _ => Or.inl).applyAt hstart).trans hlater ?_
      exact fun p v q w hp hq => h.compatible p v q w (Or.inl hp) (Or.inr hq)

/-- A patch whose entries lie apart and delete no two fields of one map leaves the document with what
it says at its paths, and with what was there at the paths apart from these. -/
theorem setAll_patched {data : TransformMap} (h : Orderly fun p v => (p, v) ∈ data)
    (hpath : ∀ e ∈ data, e.1 ≠ []) : Patched (fun p v => (p, v) ∈ data) o (o.SetAll data) := by
  have hentries : (fun p v => (p, v) ∈ data) =
      fun p v => pending [] Changes.none p v ∨ (p, v) ∈ data := by
    funext p v
    simp [pending, not_holds_none]
  rw [hentries] at h ⊢
  exact setAll_loop h hpath (Or.inl rfl)

theorem markedAd_inOrder : (Value.map markedAd).InOrder := by
  refine .map (by decide) ?_
  simp only [markedAd, List.mem_cons, List.not_mem_nil, or_false, forall_eq_or_imp, forall_eq]
  exact ⟨Value.everywhere_string, Value.everywhere_string, Value.everywhere_string⟩

/-- The ad that Bob and Eve have among their favourites. -/
def markedDocument : ObjectValue := ⟨markedAd, markedAd_inOrder⟩

def emptyText : UserData := ⟨.string "", Value.everywhere_string⟩

theorem one_patched (hpath : path ≠ []) (value : Option UserData) :
    Patched (fun p v => p = path ∧ v = value) o
      (o.applyAt path.dropLast (Changes.none.add (path.getLastD "") value)) := by
  have hsame : ∀ v, Changes.none.Holds (path.getLastD "") v → v = value :=
    fun v hv => absurd hv (not_holds_none v)
  have hentries : (fun p v => p = path ∧ v = value) =
      pending path.dropLast (Changes.none.add (path.getLastD "") value) := by
    funext p v
    rw [pending_add hsame, ← dropLast_getLastD hpath]
    simp [pending, not_holds_none]
  rw [hentries]
  refine Orderly.applyAt ?_ (Or.inr ⟨_, value, (holds_add hsame).mpr (Or.inl ⟨rfl, rfl⟩)⟩)
  rw [← hentries]
  exact ⟨fun p v q w hp hq => Or.inl ⟨hp.1.trans hq.1.symm, hp.2.trans hq.2.symm⟩,
    fun p q hp hq _ => hp.1.trans hq.1.symm⟩

/-- `Set` and `Delete` are the patches of one entry, whatever is on the way to it. -/
theorem set_delete_patched (hpath : path ≠ []) (v : UserData) :
    Patched (fun p w => p = path ∧ w = some v) o (o.Set path v) ∧
      Patched (fun p w => p = path ∧ w = .none) o (o.Delete path) := by
  refine ⟨one_patched hpath (some v), ?_⟩
  by_cases hmap : ∃ m, o.Get path.dropLast = some (.map m)
  · obtain ⟨m, hm⟩ := hmap
    have hsame : o.Delete path =
        o.applyAt path.dropLast (Changes.none.add (path.getLastD "") .none) := by
      rw [Delete, applyAt]
      congr 1
      exact delete_loop_map hm
    rw [hsame]
    exact one_patched hpath .none
  · have hsame : o.Delete path = o := by
      rw [Delete]
      congr 1
      exact delete_loop_not_map o.inOrder fun m hm => hmap ⟨m, hm⟩
    rw [hsame]
    refine ⟨by simp, ?_, fun q _ => rfl⟩
    intro p hp r
    rw [hp.1, dropLast_getLastD hpath, Get, List.append_assoc, get_append]
    cases hget : Get.loop path.dropLast (.map o.fields) with
    | none => rfl
    | some w =>
      cases w with
      | map m => exact absurd ⟨m, hget⟩ hmap
      | _ => rfl

/-- A mark goes where Alice has no field, and Bob's goes away. -/
theorem set_delete_patched_markedDocument :
    (markedDocument.Set ["uidAlice"] emptyText).Get ["uidAlice"] = some (.string "") ∧
      (markedDocument.Delete ["uidBob"]).Get ["uidBob"] = .none := by
  have hset := (set_delete_patched (o := markedDocument) (show ["uidAlice"] ≠ [] by simp)
    emptyText).1
  have hdelete := (set_delete_patched (o := markedDocument) (show ["uidBob"] ≠ [] by simp)
    emptyText).2
  exact ⟨hset.set _ emptyText ⟨rfl, rfl⟩ [], hdelete.deleted _ ⟨rfl, rfl⟩ []⟩

end SetAll

end ObjectValue

end VoisinMalin
