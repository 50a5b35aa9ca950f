import ContentStore.Proofs.Engine.Exact
import ContentStore.Proofs.Engine.PackSteps
import ContentStore.Proofs.Store.History

/-!
# When a self-contained pack is installed

The ids that the entries of a pack are given are new, so that a self-contained pack finds in the store
only what it has created itself or is about to create. Its installation succeeds exactly where the pack
is consistent, whatever else is stored.
-/

namespace ContentStore

namespace Operation

variable {origin now : Supply} {committed : Tables} {before : Work} {pack : Pack} {ids : PackIds}
  {pending : Pending} {known : IdMapping} {categories : List CollectionCategory}
  {collections : List Collection} {apps : List App}

theorem decides_packCollections (hn : origin.NewFor committed) (hc : pack.Closed)
    (hids : ids.Issued origin now pack) (hpending : PackPending pack ids pending)
    (hknown : known.Lists (categories.map CollectionCategory.id))
    (hlength : categories.length = pack.categories.length)
    (hb : before.Holds origin now { categories }) :
    Decides ((ids.collections.zip pack.collections).mapM fun (id, spec) =>
        newPackCollection pending (ids.resolution known) id spec) committed before
      (∀ spec ∈ pack.collections, ∃ properties nullable,
        spec.schema.resolvedRoot = .ok (.struct properties nullable))
      fun collections after =>
        List.Forall₂ (CollectionSpec.Resolved ids) (ids.collections.zip pack.collections) collections ∧
          after.Holds origin now { categories, collections } := by
  refine Decides.mapM_zip Collection.id (fun done collections after =>
    List.Forall₂ (CollectionSpec.Resolved ids) done collections ∧
      after.Holds origin now { categories, collections })
    hids.collections.length_eq hids.collections.nodup ⟨.nil, hb⟩ ?_
  rintro place id spec done collections middle hid hs hfree ⟨hresolved, hholds⟩
  refine (decides_newPackCollection hn hc hids hpending hknown hlength hholds (List.mem_of_getElem? hid)
    (List.mem_of_getElem? hs) hfree).mono Iff.rfl ?_
  rintro collection after ⟨hcollection, hafter⟩
  exact ⟨hcollection.1, List.rel_append hresolved (.cons hcollection .nil), hafter⟩

theorem decides_packApps (hn : origin.NewFor committed) (hc : pack.Closed)
    (hids : ids.Issued origin now pack) (hpending : PackPending pack ids pending)
    (hb : before.Holds origin now { categories, collections }) :
    Decides ((ids.apps.zip pack.apps).mapM fun (id, spec) =>
        newPackApp pending (ids.resolution known) id spec) committed before True
      fun apps after => after.Holds origin now { categories, collections, apps } := by
  refine (Decides.mapM_zip (p := fun _ => True) App.id
    (fun _ apps after => after.Holds origin now { categories, collections, apps })
    hids.apps.length_eq hids.apps.nodup hb ?_).mono (by simp) fun _ _ h => h
  intro place id spec done apps middle hid hs hfree hholds
  exact decides_newPackApp hn hc hids hpending hholds (List.mem_of_getElem? hid)
    (List.mem_of_getElem? hs) hfree

theorem decides_packDocuments (hn : origin.NewFor committed) (hc : pack.Closed)
    (hself : pack.SelfContained) (hids : ids.Issued origin now pack)
    (hpending : PackPending pack ids pending)
    (hb : before.Holds origin now { categories, collections, apps })
    (hresolved : List.Forall₂ (CollectionSpec.Resolved ids) (ids.collections.zip pack.collections)
      collections) (validator : Validator) :
    Decides ((ids.documents.zip pack.documents).mapM fun (id, spec) =>
        newPackDocument validator pending (ids.resolution known) id spec) committed before
      (∀ spec ∈ pack.documents, pack.ValidContent validator spec ∧ pack.AgreedReferences spec)
      fun documents after => after.Holds origin now { categories, collections, apps, documents } := by
  refine Decides.mapM_zip Document.id
    (fun _ documents after => after.Holds origin now { categories, collections, apps, documents })
    hids.documents.length_eq hids.documents.nodup hb ?_
  intro place id spec done documents middle hid hs hfree hholds
  exact decides_newPackDocument hn hc hself hids hpending hholds hresolved hid hs hfree validator

/-- A closed pack that refers to nothing else is created exactly where its schemas have struct roots and
the content of its documents is valid and agrees with it. -/
theorem decides_newPack {supply : Supply} (hn : supply.NewFor committed) (hc : pack.Closed)
    (hself : pack.SelfContained) (validator : Validator) :
    Decides (newPack validator pack) committed (Work.start none supply)
      ((∀ spec ∈ pack.collections, ∃ properties nullable,
          spec.schema.resolvedRoot = .ok (.struct properties nullable)) ∧
        ∀ spec ∈ pack.documents, pack.ValidContent validator spec ∧ pack.AgreedReferences spec)
      fun _ after => after.Ample supply := by
  refine (decides_idsFor hn (Work.ample_start supply) rfl pack).after fun ids given hgiven => ?_
  obtain ⟨hids, hheld⟩ := hgiven
  have howners := hc.checked.owners
  refine (decides_pendingFor howners hids.collections.length_eq).after fun pending next hnext => ?_
  obtain ⟨hpending, rfl⟩ := hnext
  have hcategories := decides_newPackCategories hn (IdMapping.lists_empty _) hheld
    (by simpa using hc.parents)
  refine hcategories.after fun result categorized hresult => ?_
  obtain ⟨categories, hlength, hknown, hheld⟩ := hresult
  have hcollections := decides_packCollections hn hc hids hpending hknown (by simpa using hlength) hheld
  refine hcollections.bind fun collections collected hcollected => ?_
  obtain ⟨hresolved, hheld⟩ := hcollected
  refine (decides_packApps hn hc hids hpending hheld).after fun apps applied hheld => ?_
  exact (decides_packDocuments hn hc hself hids hpending hheld hresolved validator).answer
    fun documents after hheld => hheld.ample

end Operation

namespace Engine

/-- A run succeeds where its operation does, if the commit is never refused. -/
theorem run_succeeds_iff {α : Type} {engine : Engine} {operation : Operation α} {p : Prop}
    {fact : α → Work → Prop}
    (h : operation.Decides engine.store.committed (Work.start engine.store.budget engine.supply) p fact)
    (hc : ∀ a after, fact a after →
      ∃ final, engine.store.committed.commit after.staged = .ok final) :
    (∃ a, (engine.run operation).1 = .ok a) ↔ p := by
  constructor
  · rintro ⟨a, ha⟩
    rcases engine.run_cases operation with ⟨error, work, hrun⟩ | ⟨answer, work, hreturns, -⟩
    · simp [hrun] at ha
    · exact (h.needed hreturns).1
  · intro hp
    obtain ⟨a, after, hreturns⟩ := h.enough hp
    obtain ⟨final, hcommit⟩ := hc a after (h.needed hreturns).2
    refine ⟨a, ?_⟩
    unfold Operation.Returns at hreturns
    simp only [run, hreturns, hcommit]

/-- A self-contained pack is installed exactly where it is consistent, if the store takes every write and
new ids are new. -/
theorem installPack_succeeds_iff (engine : Engine) (pack : Pack) (hs : pack.SelfContained)
    (hbudget : engine.store.budget = none) (hn : engine.supply.NewFor engine.store.committed) :
    (∃ installed, (engine.installPack pack).1 = .ok installed) ↔
      pack.Consistent engine.validator engine.config.maxPackEntities := by
  cases hissues : engine.validatePack pack with
  | cons issue others =>
      constructor
      · rintro ⟨installed, hinstalled⟩
        simp [installPack, hissues] at hinstalled
      · intro hconsistent
        cases hissues.symm.trans hconsistent.issues
  | nil =>
      have hc := Pack.closed_of_issues_eq_nil hs.references hissues
      have hdecides := Operation.decides_newPack hn hc hs engine.validator
      rw [← hbudget] at hdecides
      rw [installPack, hissues]
      rw [run_succeeds_iff hdecides fun _ _ hample => ⟨_, hample.commit hn⟩]
      constructor
      · rintro ⟨hroots, hdocuments⟩
        exact ⟨hissues, hroots, fun spec hd => (hdocuments spec hd).1,
          fun spec hd => (hdocuments spec hd).2⟩
      · intro hconsistent
        exact ⟨hconsistent.roots, fun spec hd => ⟨hconsistent.valid spec hd, hconsistent.agreed spec hd⟩⟩

/-! ### Two friends -/

def friendMembers (documentId : String) : List (String × Json) :=
  [("collectionId", .string "ProtoCollection_0"), ("documentId", .string documentId)]

theorem exists_person {spec : PackDocumentSpec} (hs : spec ∈ friendsPack.documents) :
    ∃ documentId, (ProtoId.ofText? documentId).isSome = true ∧
      spec = ⟨"ProtoCollection_0", personWithFriend documentId⟩ := by
  simp only [friendsPack, List.mem_cons, List.not_mem_nil, or_false] at hs
  rcases hs with rfl | rfl
  · exact ⟨"ProtoDocument_1", by decide, rfl⟩
  · exact ⟨"ProtoDocument_0", by decide, rfl⟩

theorem collectionOf?_friends (documentId : String) :
    friendsPack.collectionOf? ⟨"ProtoCollection_0", personWithFriend documentId⟩ =
      friendsPack.collections[0]? := by
  have hfirst : ProtoId.ofText? "ProtoCollection_0" = some ⟨.collection, 0, rfl, by decide⟩ := by
    decide
  exact Pack.collectionOf?_eq_some_iff.2 ⟨_, rfl, ProtoId.ofText?_eq_some_iff.1 hfirst, rfl⟩

theorem visitContent_person (documentId : String) :
    (Schema.ofTypes "Person" [("Person", personType)]).visitContent (personWithFriend documentId) =
      .ok [⟨.documentRef (some selfCollection), [.name "friend"],
        .object (friendMembers documentId)⟩] := by
  rfl

/-- All that a person holds is the reference to the friend. -/
theorem holdsAt_person {spec : PackDocumentSpec} (hs : spec ∈ friendsPack.documents) {path : Path}
    {d : Definition} {value : Json} (h : friendsPack.HoldsAt spec path d value)
    (hd : d.isVisited = true) (hn : value ≠ .null) :
    d = .documentRef (some selfCollection) ∧
      ∃ documentId, (ProtoId.ofText? documentId).isSome = true ∧
        value = .object (friendMembers documentId) := by
  obtain ⟨documentId, hdocument, rfl⟩ := exists_person hs
  have hvisit := h.mem_visits (collectionOf?_friends documentId) (visitContent_person documentId) hd hn
  obtain ⟨rfl, -, rfl⟩ := Visit.mk.inj (List.mem_singleton.1 hvisit)
  exact ⟨rfl, documentId, hdocument, rfl⟩

theorem selfContained_friends : friendsPack.SelfContained where
  references := by
    simp only [← ProtoId.isSome_ofText?_iff]
    refine ⟨by decide, by decide, by decide, by decide, by decide, by decide, ?_⟩
    intro spec hs path fixed members key kind text hholds hkey hlookup
    obtain ⟨-, documentId, hdocument, hmembers⟩ := holdsAt_person hs hholds rfl Json.noConfusion
    cases hmembers
    simp only [referenceKeys, List.mem_cons, List.not_mem_nil, or_false] at hkey
    rcases hkey with hkey | hkey
    · cases hkey
      cases hlookup
      decide
    · cases hkey
      cases hlookup
      exact hdocument
  noStoredFile := by
    intro spec hs path accept value id name mimeType hholds hvalue
    have hn : value ≠ .null := by
      rintro rfl
      cases hvalue
    obtain ⟨hd, -⟩ := holdsAt_person hs hholds rfl hn
    cases hd

/-- The friends are installed, so that their pack is consistent. -/
theorem consistent_friends :
    let engine : Engine := { supply := .growing }
    (friendsPack.SelfContained ∧ engine.store.budget = none ∧
      engine.supply.NewFor engine.store.committed) ∧
      friendsPack.Consistent engine.validator engine.config.maxPackEntities := by
  have hnew := Supply.newFor_empty Supply.growing_injective
  refine ⟨⟨selfContained_friends, rfl, hnew⟩, ?_⟩
  refine (installPack_succeeds_iff _ friendsPack selfContained_friends rfl hnew).1 ?_
  have hok : (({ supply := .growing } : Engine).installPack friendsPack).1.isOk = true := by
    decide +kernel
  generalize (({ supply := .growing } : Engine).installPack friendsPack).1 = result at hok
  cases result with
  | error error => cases hok
  | ok installed => exact ⟨installed, rfl⟩

end Engine

end ContentStore
