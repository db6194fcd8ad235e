import VoisinMalin.Clients

/-! The fields of the documents under concurrent clients. Publishing writes all the schema fields, a
mark is never stored under one of them, and `updateData` fails for a missing document; but the
merge of `favoriteButton` creates the document that it does not find, with the mark alone. -/

namespace VoisinMalin

open EventMachine World

variable {Double : Type}

/-- Every document of the collection has the twelve fields that `publishButton` writes. -/
def SchemaIntegrity (w : World Double) : Prop :=
  ∀ id data, w.ads.lookup id = some data → Complete data

/-- A merge is applied to a document that still exists. -/
def MergesIntoDocument (w : World Double) (e : Event Double) : Prop :=
  ∀ id key c, e = .apply (.setData id key) c → id ∈ w.ads

section Write

variable {ads ads' : Collection} {wr : Write}

/-- The document that a write leaves is complete where the write is no merge into a missing
document. -/
theorem document_complete {data : Option Fields} {data' : Fields}
    (hold : ∀ d, data = some d → Complete d)
    (hmerge : ∀ id key, wr = .setData id key → data ≠ none)
    (h : wr.document data = some (some data')) : Complete data' := by
  cases wr with
  | setData id key =>
    cases data with
    | none => exact absurd rfl (hmerge id key rfl)
    | some d =>
      cases h
      exact (hold d rfl).update_mark key _
  | updateData id key =>
    cases data with
    | none => contradiction
    | some d =>
      cases h
      exact (hold d rfl).update_mark key _
  | delete id => simp [Write.document] at h
  | addDocument id new =>
    cases h
    exact new.fields_complete

/-- A merge into a missing document leaves one that is not complete. -/
theorem merge_missing {id : DocID} {key : MarkKey} (h : (Write.setData id key).apply ads = some ads')
    (hmissing : id ∉ ads) : ∃ data, ads'.lookup id = some data ∧ ¬Complete data := by
  obtain ⟨data, hdata, hads⟩ := Write.lookup_apply h
  have hnone : ads.lookup id = none := Finmap.lookup_eq_none.mpr hmissing
  simp only [Write.id, hnone, Write.document, Option.getD_none] at hdata
  cases hdata
  exact ⟨_, (hads id).trans (if_pos rfl), not_complete_of_mark_only key _⟩

end Write

theorem schema_step {w u : World Double} {e : Event Double} (hw : SchemaIntegrity w)
    (hstep : step w e = some u) : SchemaIntegrity u ↔ MergesIntoDocument w e := by
  by_cases he : ∃ wr c, e = .apply wr c
  · obtain ⟨wr, c, rfl⟩ := he
    obtain ⟨-, ⟨ads, happly, rfl⟩ | ⟨happly, rfl⟩⟩ := step_apply hstep
    · constructor
      · rintro hu id key c' hmerge
        obtain ⟨rfl, rfl⟩ := Event.apply.inj hmerge
        by_contra hmissing
        obtain ⟨data, hdata, hpartial⟩ := merge_missing happly hmissing
        exact hpartial (hu id data hdata)
      · intro hmerge id data hdata
        obtain ⟨written, hwritten, hads⟩ := Write.lookup_apply happly
        have hlookup := hads id
        rw [show ads.lookup id = some data from hdata] at hlookup
        split at hlookup
        · subst hlookup
          refine document_complete (hw wr.id) (fun i key hwr => ?_) hwritten
          subst hwr
          exact fun hnone => Finmap.lookup_eq_none.mp hnone (hmerge i key c rfl)
        · exact hw id data hlookup.symm
    · refine ⟨fun _ id key c' hmerge => ?_, fun _ => hw⟩
      obtain ⟨rfl, rfl⟩ := Event.apply.inj hmerge
      simp [Write.apply, Write.document] at happly
  · have hads := (step_effect hstep).ads fun wr c h => he ⟨wr, c, h⟩
    have hsame : SchemaIntegrity u := by
      intro id data hdata
      rw [hads] at hdata
      exact hw id data hdata
    exact ⟨fun _ id key c h => absurd ⟨_, c, h⟩ he, fun _ => hsame⟩

/-- In a run of any clients from a collection of complete documents, the documents of every state
are complete exactly when each merge is applied while its document exists. -/
theorem schemaIntegrity_iff_merges {w : World Double} (hw : SchemaIntegrity w)
    (es : List (Event Double)) :
    Always step SchemaIntegrity w es ↔ Along step MergesIntoDocument w es :=
  always_iff_along (I := fun _ => True) (fun _ _ _ _ _ => trivial)
    (fun _ _ _ _ h hstep => schema_step h hstep) trivial hw

/-- Bob and Alice on their devices 1 and 0, each with the detail screen of Alice's only ad. -/
def bothLook : World Nat where
  ads := (∅ : Collection).insert 1 (AdData.sample "Velo" "A" alice.mail).fields
  session := fun dev => if dev = 0 then some alice else some bob
  screens := fun sc => some ⟨sc, (AdData.sample "Velo" "A" alice.mail).toAd 0, none⟩
  pending := []
  drawn := {1}

theorem bothLook_schemaIntegrity : SchemaIntegrity bothLook := by
  intro id data hdata
  have hlookup := Collection.lookup_put ∅ 1 id (some (AdData.sample "Velo" "A" alice.mail).fields)
  rw [show (∅ : Collection).put 1 _ = bothLook.ads from rfl, hdata] at hlookup
  split at hlookup
  · cases hlookup
    exact AdData.fields_complete _
  · simp at hlookup

def bobFavourites : List (Event Nat) :=
  [.favoriteButton 1, .evaluate ⟨"Velo", none⟩ (.favoriteButton 1) [1],
    .deliver (.answer [1] (.favoriteButton 1))]

def aliceDeletes : List (Event Nat) :=
  [.delButtonPressed 0, .evaluate ⟨"Velo", none⟩ (.delButtonPressed 0) [1],
    .deliver (.answer [1] (.delButtonPressed 0)), .apply (.delete 1) (.annonceSuprimee 0)]

def bobWrites : List (Event Nat) := [.apply (.setData 1 bob.uid) (.misEnFavoris 1)]

/-- Bob's mark arrives before Alice deletes her ad. -/
theorem schemaIntegrity_bobFirst :
    Always step SchemaIntegrity bothLook (bobFavourites ++ bobWrites ++ aliceDeletes) := by
  refine (schemaIntegrity_iff_merges bothLook_schemaIntegrity _).mpr ?_
  simp only [bobFavourites, bobWrites, aliceDeletes, List.cons_append, List.nil_append]
  iterate 3 refine Along.cons rfl (fun _ _ _ h => nomatch h) ?_
  refine Along.cons rfl (fun id key c h => ?_) ?_
  · obtain ⟨rfl, rfl⟩ := Write.setData.inj (Event.apply.inj h).1
    decide
  iterate 4 refine Along.cons rfl (fun _ _ _ h => nomatch h) ?_
  trivial

/-- Bob's mark arrives after Alice has deleted her ad, which comes back with the mark alone. -/
theorem removed_ad_comes_back : ∃ u,
    run step bothLook (bobFavourites ++ aliceDeletes ++ bobWrites) = some u ∧
    SchemaIntegrity bothLook ∧ ¬SchemaIntegrity u := by
  refine ⟨_, rfl, bothLook_schemaIntegrity, fun h => ?_⟩
  exact not_complete_of_mark_only bob.uid _ (h 1 _ rfl)

end VoisinMalin
