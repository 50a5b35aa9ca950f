import ContentStore.Proofs.Engine.Consistency
import ContentStore.Proofs.Engine.StagedCheck
import ContentStore.Proofs.Engine.Write

/-!
# Installing a pack in stages

A pack may be installed at once, or without its documents and these created afterwards. Both succeed
together and leave the same rows. Only the ids of categories and documents come in another order: at once
the documents take theirs before the categories do.
-/

namespace ContentStore

/-- No reference of a pack is an id that the supply is still to give. -/
def Supply.NewTo (supply : Supply) (pack : Pack) : Prop :=
  pack.References fun kind text =>
    ∀ n, supply.used ≤ n → text ≠ ((supply.suffix n).toId kind).text

namespace Engine

/-- The pack is installed without its documents, and then these are created as the pack describes them. -/
def InstallsInStages (engine : Engine) (pack : Pack) (after : Engine) : Prop :=
  ∃ base middle specs documents,
    engine.installPack pack.withoutDocuments = (.ok base, middle) ∧
    pack.stagedOn base = some specs ∧ middle.createDocuments specs = (.ok documents, after)

/-- Two engines have added the same rows to those of an engine, up to a renaming of ids that its supply
has given since. -/
def AddedAlike (engine inStages atOnce : Engine) : Prop :=
  ∃ (ρ : Renaming) (rows renamed : Tables), ρ.Within engine.supply inStages.supply ∧
    inStages.store.committed = engine.store.committed ++ rows ∧
    atOnce.store.committed = engine.store.committed ++ renamed ∧
    Tables.Renamed inStages.store.committed ρ rows renamed

end Engine

/-! ### The renaming -/

section Renaming

variable {supply : Supply} {pack : Pack}

/-- The renaming from the order in which ids are given in stages to the order in which they are given at
once. -/
noncomputable def Supply.staging (h : Function.Injective supply.suffix) (pack : Pack) : Renaming :=
  supply.moving h (blockSwap (pack.supplyForCategories supply).used pack.categories.length
    pack.documents.length)

theorem Supply.staging_category (h : Function.Injective supply.suffix) {n : Nat}
    (hn : n < pack.categories.length) :
    (Supply.staging h pack).category (((pack.supplyForCategories supply).suffix
        ((pack.supplyForCategories supply).used + n)).toId .collectionCategory) =
      ((pack.supplyForCategories supply).suffix
        ((pack.supplyForCategories supply).used + pack.documents.length + n)).toId
          .collectionCategory := by
  refine (supply.moving_category h _ _).trans ?_
  rw [blockSwap_left (Nat.le_add_right _ _) (by omega), Nat.add_right_comm]
  rfl

/-- At once the documents get the renamed ids. -/
theorem Supply.staging_documents (h : Function.Injective supply.suffix) (pack : Pack) :
    (PackIds.given supply pack).documents =
      ((pack.supplyForDocuments supply).next .document pack.documents.length).map
        (Supply.staging h pack).document := by
  let first := (pack.supplyForCategories supply).used
  have hrange : List.range' first pack.documents.length =
      (List.range' (first + pack.categories.length) pack.documents.length).map
        fun n => n - pack.categories.length := by
    rw [List.map_sub_range' (Nat.le_add_left _ _), Nat.add_sub_cancel]
  change (List.range' first pack.documents.length).map _ = ((List.range'
    (first + pack.categories.length) pack.documents.length).map _).map _
  rw [hrange, List.map_map, List.map_map]
  refine List.map_congr_left fun n hn => ?_
  obtain ⟨hle, hlt⟩ := List.mem_range'_1.1 hn
  have hmoved := supply.moving_document h (blockSwap first pack.categories.length
    pack.documents.length) n
  rw [blockSwap_right hle hlt] at hmoved
  exact hmoved.symm

theorem Supply.staging_within (h : Function.Injective supply.suffix) (pack : Pack) {now : Supply}
    (hle : ((pack.supplyForDocuments supply).skip pack.documents.length).used ≤ now.used) :
    (Supply.staging h pack).Within supply now := by
  refine supply.moving_within h ?_ hle
  simp only [Pack.supplyForCategories, Supply.skip]
  omega

/-- A renaming of ids that are still to come leaves all references of the pack alone. -/
theorem Renaming.Within.leaves {ρ : Renaming} {now : Supply} (h : ρ.Within supply now)
    (hn : supply.NewTo pack) : pack.References fun kind text => ρ.Leaves kind text := by
  refine hn.and_imp hn fun kind text hnew _ id hid => ?_
  by_contra hmoved
  obtain ⟨n, hle, -, hgiven⟩ := h kind id hmoved
  exact hnew n hle (hid.trans (congrArg RealId.text hgiven))

end Renaming

/-! ### Rows that are committed in stages -/

namespace Tables

theorem append_left_cancel {a b c : Tables} (h : a ++ b = a ++ c) : b = c := by
  ext kind : 1
  have hrows := congrArg (fun t => t.rows kind) h
  simpa using hrows

end Tables

namespace Mirrors

variable {final committed staged : Tables} {ρ : Renaming} {now later : Supply} {work work' : Work}

/-- What both stages have staged is renamed at once. -/
theorem renamed (h : Mirrors final committed ρ (committed ++ staged) committed now later work work') :
    Tables.Renamed final ρ (staged ++ work.staged) work'.staged := by
  obtain ⟨rows, renamed, hrows, hrenamed, hr⟩ := h.rows
  rw [Tables.append_assoc] at hrows
  rw [Tables.append_left_cancel hrows, Tables.append_left_cancel hrenamed]
  exact hr

/-- All may be committed at once where it may be committed in stages. -/
theorem clear_iff (h : Mirrors final committed ρ (committed ++ staged) committed now later work work')
    (hb : committed.KeptBy ρ) (hn : work.staged.categories = []) :
    (∀ kind, ∀ e ∈ work'.staged.rows kind, committed.contains kind e.id = false) ↔
      (∀ kind, ∀ e ∈ staged.rows kind, committed.contains kind e.id = false) ∧
        ∀ kind, ∀ e ∈ work.staged.rows kind, (committed ++ staged).contains kind e.id = false := by
  rw [forall_congr' fun kind => h.renamed.clear_iff hb]
  simp only [Tables.rows_append, List.forall_mem_append, forall_and]
  refine and_congr_right fun _ => ⟨fun hclear kind e he => ?_, fun hclear kind e he => ?_⟩
  · cases kind with
    | collectionCategory =>
        rw [Tables.rows, hn] at he
        cases he
    | _ => exact (h.unique _ (by decide)).1 e he
  · have hboth := hclear kind e he
    rw [Tables.contains_append, Bool.or_eq_false_iff] at hboth
    exact hboth.1

/-- When the first stage is committed, the second one starts from its rows. -/
theorem restart (h : Mirrors {} committed ρ committed committed now later work work')
    (next : Supply) (hnext : next.now = now.now) :
    Mirrors (committed ++ work.staged) committed ρ (committed ++ work.staged) committed next later
      (Work.start none next) work' where
  unlimited := rfl
  unlimited' := h.unlimited'
  supply_eq := rfl
  supply_eq' := h.supply_eq'
  time_eq := h.time_eq.trans hnext.symm
  unique := Tables.unique_empty _
  unique' := h.unique'
  rows := by
    obtain ⟨rows, renamed, hrows, hrenamed, hr⟩ := h.rows
    exact ⟨rows, renamed, (Tables.append_empty _).trans hrows, hrenamed, hr.of_empty _⟩

end Mirrors

namespace Operation

variable {committed : Tables} {supply : Supply} {pack : Pack} {base base' : PackBase}
  {middle middle' : Work}

/-- The documents are created in a transaction that starts from the rows of the first stage where the
installation of the pack creates them. -/
theorem agrees_createDocuments (h : Function.Injective supply.suffix)
    (hb : committed.KeptBy (supply.staging h pack))
    (hleaves : pack.References fun kind text => (supply.staging h pack).Leaves kind text)
    (hm : Mirrors {} committed (supply.staging h pack) committed committed
      (pack.supplyForDocuments supply) ((pack.supplyForDocuments supply).skip pack.documents.length)
      middle middle')
    (hbase : Returns (newPackBase pack) committed (Work.start none supply) base' middle')
    (validator : Validator) {specs : List DocumentSpec}
    (hs : List.Forall₂ (fun spec staged => ∃ p owner collection,
      pack.Stages (committed ++ middle.staged) (.ofIds (PackIds.given supply pack).collections) spec
        staged p owner collection) pack.documents specs) :
    Agrees (newBatch validator specs) (newPackDocuments validator pack base')
      (committed ++ middle.staged) committed (Work.start none middle.supply) middle' fun _ after _ after' =>
        MirrorsSince (committed ++ middle.staged) committed (supply.staging h pack)
          (committed ++ middle.staged) committed
          ((pack.supplyForDocuments supply).skip pack.documents.length) after after' := by
  obtain ⟨hgiven, hpending, -⟩ := resolved_of_newPackBase hbase
  have hids : base'.ids = .given supply pack := hgiven
  refine .after_left (decides_freshFor .document specs) fun documents given hgiven => ?_
  have hsupply : (Work.start none middle.supply).supply = pack.supplyForDocuments supply :=
    hm.supply_eq
  rw [← hs.length_eq, hsupply] at hgiven
  obtain ⟨rfl, hgiven⟩ := hgiven
  have hwork : given =
      Work.start none ((pack.supplyForDocuments supply).skip pack.documents.length) := by
    rw [hgiven, hm.supply_eq]
    rfl
  have hstart := hm.restart ((pack.supplyForDocuments supply).skip pack.documents.length) rfl
  rw [← hwork] at hstart
  have hdocuments := Supply.staging_documents h pack
  rw [← hids] at hdocuments hs
  refine agrees_newPackDocuments hstart hb validator hpending hdocuments hs ?_
  · intro spec hspec path fixed members text hholds hlookup
    exact hleaves.content spec hspec path fixed members "documentId" .document text hholds
      (by simp [referenceKeys]) hlookup

/-- What a pack has staged is as the pack says, and its collections are stored. -/
theorem matches_of_newPack {validator : Validator} {budget : Budget} {installed : PackInstallation}
    {work : Work}
    (h : Returns (newPack validator pack) committed (Work.start budget supply) installed work) :
    pack.Matches (committed ++ work.staged) installed ∧ ∀ collection ∈ installed.collections,
      (committed ++ work.staged).get? .collection collection.id = some collection := by
  obtain ⟨hfinds, _, _, _, _, hadded⟩ := (newPack_adds validator pack).of_start h
  have hfiles : ∀ file ∈ work.staged.files, file ∈ (committed ++ work.staged).files :=
    fun file hfile => List.mem_append_right _ hfile
  have hstaged : work.staged.collections = installed.collections :=
    congrArg Tables.collections hadded.added_eq
  refine ⟨hadded.matches_installed hfinds hfiles, fun collection hmem => ?_⟩
  rw [← hstaged] at hmem
  exact hfinds .collection (by decide) collection hmem

/-- Once a pack stands without its documents, all of these can be described for the second stage. -/
theorem exists_stages_of_newPackBase {budget : Budget}
    (howners : ∀ spec ∈ pack.documents, pack.HasEntry .collection spec.collectionId)
    (husable : ∀ spec ∈ pack.collections, spec.schema.checkStructure = .ok ()) (validator : Validator)
    (h : Returns (newPackBase pack.withoutDocuments) committed (Work.start budget supply) base middle) :
    ∃ specs, pack.stagedOn (base.installed []) = some specs ∧
      List.Forall₂ (fun spec staged => ∃ p owner collection,
        pack.Stages (committed ++ middle.staged) (.ofIds (PackIds.given supply pack).collections) spec
          staged p owner collection) pack.documents specs := by
  obtain ⟨hids, -, hrows⟩ := resolved_of_newPackBase h
  have hreturns : Returns (newPack validator pack.withoutDocuments) committed
      (Work.start budget supply) (base.installed []) middle :=
    returns_newPack_withoutDocuments.2 ⟨base, h, rfl⟩
  rw [hids] at hrows
  exact Pack.exists_stagedOn howners husable (Supply.length_next ..) hrows
    (matches_of_newPack hreturns).2

/-- The second stage stages no category. -/
theorem categories_eq_nil_of_createDocuments {validator : Validator} {budget : Budget}
    {specs : List DocumentSpec} {documents : List Document} {after : Work}
    (h : Returns (newBatch validator specs) committed (Work.start budget supply) documents after) :
    after.staged.categories = [] := by
  obtain ⟨-, _, _, _, _, hadded⟩ := (newBatch_adds validator specs).of_start h
  rw [hadded.added_eq]

end Operation

namespace Engine

variable {engine after inStages : Engine} {pack : Pack} {installed : PackInstallation}

theorem installPack_eq_ok_iff :
    engine.installPack pack = (.ok installed, after) ↔ engine.validatePack pack = [] ∧
      engine.run (Operation.newPack engine.validator pack) = (.ok installed, after) := by
  unfold installPack
  split
  · next h => simp [h]
  · next h => exact iff_of_false (by simp) fun hboth => h hboth.1

theorem createDocuments_eq_ok_iff {specs : List DocumentSpec} {documents : List Document} :
    engine.createDocuments specs = (.ok documents, after) ↔
      specs.length ≤ engine.config.maxBatchDocuments ∧
      engine.run (Operation.newBatch engine.validator specs) = (.ok documents, after) := by
  rw [createDocuments_eq]
  split
  · next h => simp [h]
  · next h => simp [Nat.le_of_not_lt h]

/-- Where the stages have left what is left at once under other ids, the same rows are added. -/
theorem addedAlike_of_mirrors (hn : engine.supply.NewFor engine.store.committed)
    {middle after work : Work} {later : Supply}
    (hle : ((pack.supplyForDocuments engine.supply).skip pack.documents.length).used ≤ later.used)
    (h : Mirrors (engine.store.committed ++ middle.staged) engine.store.committed
      (engine.supply.staging hn.distinct pack) (engine.store.committed ++ middle.staged)
      engine.store.committed later later after work) {inStages atOnce : Engine}
    (hin : inStages.store.committed = engine.store.committed ++ middle.staged ++ after.staged)
    (hsupply : inStages.supply = after.supply)
    (hat : atOnce.store.committed = engine.store.committed ++ work.staged) :
    engine.AddedAlike inStages atOnce := by
  refine ⟨engine.supply.staging hn.distinct pack, middle.staged ++ after.staged, work.staged,
    Supply.staging_within hn.distinct pack ?_, hin.trans (Tables.append_assoc ..), hat, ?_⟩
  · rw [hsupply, h.supply_eq]
    exact hle
  · rw [hin]
    exact h.renamed.append_final after.staged

section Stages

variable (howners : ∀ spec ∈ pack.documents, pack.HasEntry .collection spec.collectionId)
  (hn : engine.supply.NewFor engine.store.committed) (hnew : engine.supply.NewTo pack)

include howners hn hnew

theorem agrees_firstStage :
    Operation.Agrees (Operation.newPackBase pack.withoutDocuments) (Operation.newPackBase pack)
      engine.store.committed engine.store.committed (Work.start none engine.supply)
      (Work.start none engine.supply) fun _ middle _ middle' =>
        Mirrors {} engine.store.committed (engine.supply.staging hn.distinct pack)
          engine.store.committed engine.store.committed (pack.supplyForDocuments engine.supply)
          ((pack.supplyForDocuments engine.supply).skip pack.documents.length) middle middle' := by
  have hwithin := Supply.staging_within hn.distinct pack (Nat.le_refl _)
  have hleaves := hwithin.leaves hnew
  exact Operation.agrees_newPackBase (hwithin.keptBy hn) howners
    ⟨hleaves.parents, hleaves.categories⟩ fun _ => Supply.staging_category hn.distinct

/-- After the first stage the documents can be described, and then they are created where they are
created at once. -/
theorem exists_secondStage (hissues : engine.validatePack pack.withoutDocuments = [])
    {base base' : PackBase} {middle middle' : Work}
    (hbase : Operation.Returns (Operation.newPackBase pack.withoutDocuments) engine.store.committed
      (Work.start none engine.supply) base middle)
    (hbase' : Operation.Returns (Operation.newPackBase pack) engine.store.committed
      (Work.start none engine.supply) base' middle')
    (hm : Mirrors {} engine.store.committed (engine.supply.staging hn.distinct pack)
      engine.store.committed engine.store.committed (pack.supplyForDocuments engine.supply)
      ((pack.supplyForDocuments engine.supply).skip pack.documents.length) middle middle') :
    ∃ specs, pack.stagedOn (base.installed []) = some specs ∧
      specs.length = pack.documents.length ∧
      Operation.Agrees (Operation.newBatch engine.validator specs)
        (Operation.newPackDocuments engine.validator pack base')
        (engine.store.committed ++ middle.staged) engine.store.committed
        (Work.start none middle.supply) middle' fun _ after _ work =>
          MirrorsSince (engine.store.committed ++ middle.staged) engine.store.committed
            (engine.supply.staging hn.distinct pack) (engine.store.committed ++ middle.staged)
            engine.store.committed
            ((pack.supplyForDocuments engine.supply).skip pack.documents.length) after work := by
  have hwithin := Supply.staging_within hn.distinct pack (Nat.le_refl _)
  obtain ⟨specs, hspecs, hstages⟩ := Operation.exists_stages_of_newPackBase howners
    (Pack.checked_of_issues_eq_nil hissues).usable engine.validator hbase
  exact ⟨specs, hspecs, hstages.length_eq.symm, Operation.agrees_createDocuments hn.distinct
    (hwithin.keptBy hn) (hwithin.leaves hnew) hm hbase' engine.validator hstages⟩

variable (hentities : pack.entityCount ≤ engine.config.maxPackEntities)
  (hbudget : engine.store.budget = none)

include hentities hbudget

/-- What was installed in stages is installed at once, with the same rows. -/
theorem installPack_of_installsInStages (h : engine.InstallsInStages pack inStages) :
    ∃ installed atOnce, engine.installPack pack = (.ok installed, atOnce) ∧
      engine.AddedAlike inStages atOnce := by
  obtain ⟨_, _, specs, documents, hfirst, hspecs, hsecond⟩ := h
  obtain ⟨hissues, hrun⟩ := installPack_eq_ok_iff.1 hfirst
  obtain ⟨middle, hreturns, hclear, rfl⟩ := run_eq_ok_iff.1 hrun
  rw [hbudget] at hreturns
  obtain ⟨base, hbase, rfl⟩ := Operation.returns_newPack_withoutDocuments.1 hreturns
  obtain ⟨base', middle', hbase', hm⟩ := (agrees_firstStage howners hn hnew).forth hbase
  obtain ⟨_, hspecs', -, hagrees⟩ := exists_secondStage howners hn hnew hissues hbase hbase' hm
  cases hspecs.symm.trans hspecs'
  obtain ⟨-, hrun⟩ := createDocuments_eq_ok_iff.1 hsecond
  obtain ⟨after, hafter, hclear', rfl⟩ := run_eq_ok_iff.1 hrun
  have hnone := Operation.categories_eq_nil_of_createDocuments hafter
  change Operation.Returns (Operation.newBatch engine.validator specs)
    (engine.store.committed ++ middle.staged) (Work.start middle.budget middle.supply) documents
    after at hafter
  rw [hm.unlimited] at hafter
  obtain ⟨documents', work, hdocuments, later, hle, hm'⟩ := hagrees.forth hafter
  have hnewPack := Operation.returns_newPack.2 ⟨base', middle', documents', hbase', hdocuments, rfl⟩
  obtain ⟨hmatches, hstored⟩ := Operation.matches_of_newPack hnewPack
  refine ⟨base'.installed documents', _, installPack_eq_ok_iff.2 ⟨?_, run_eq_ok_iff.2 ⟨work, ?_, ?_,
    rfl⟩⟩, ?_⟩
  · exact (Pack.issues_eq_nil_iff_withoutDocuments hentities).2
      ⟨hissues, fun _ _ hs => hmatches.documentDemands_met hstored howners
        (Pack.checked_of_issues_eq_nil hissues).usable hs⟩
  · rw [hbudget]
    exact hnewPack
  · have hkept := (Supply.staging_within hn.distinct pack hle).keptBy hn
    exact (hm'.clear_iff hkept hnone).2 ⟨hclear, hclear'⟩
  · exact addedAlike_of_mirrors hn hle hm' rfl rfl rfl

variable (hbatch : pack.documents.length ≤ engine.config.maxBatchDocuments)

include hbatch

/-- What was installed at once is installed in stages. -/
theorem installsInStages_of_installPack (h : engine.installPack pack = (.ok installed, after)) :
    ∃ inStages, engine.InstallsInStages pack inStages := by
  obtain ⟨hissues, hrun⟩ := installPack_eq_ok_iff.1 h
  have hissues := ((Pack.issues_eq_nil_iff_withoutDocuments hentities).1 hissues).1
  obtain ⟨work, hreturns, hclear, rfl⟩ := run_eq_ok_iff.1 hrun
  rw [hbudget] at hreturns
  obtain ⟨base', middle', documents', hbase', hdocuments, rfl⟩ := Operation.returns_newPack.1 hreturns
  obtain ⟨base, middle, hbase, hm⟩ := (agrees_firstStage howners hn hnew).back hbase'
  obtain ⟨specs, hspecs, hlength, hagrees⟩ :=
    exists_secondStage howners hn hnew hissues hbase hbase' hm
  obtain ⟨documents, after, hafter, later, hle, hm'⟩ := hagrees.back hdocuments
  have hnone := Operation.categories_eq_nil_of_createDocuments hafter
  have hkept := (Supply.staging_within hn.distinct pack hle).keptBy hn
  obtain ⟨hclear, hclear'⟩ := (hm'.clear_iff hkept hnone).1 hclear
  refine ⟨_, base.installed [], engine.afterWork middle _, specs, documents,
    installPack_eq_ok_iff.2 ⟨hissues, run_eq_ok_iff.2 ⟨middle, ?_, hclear, rfl⟩⟩, hspecs,
    createDocuments_eq_ok_iff.2 ⟨hlength ▸ hbatch, run_eq_ok_iff.2
      ⟨after, ?_, hclear', rfl⟩⟩⟩
  · rw [hbudget]
    exact Operation.returns_newPack_withoutDocuments.2 ⟨base, hbase, rfl⟩
  · rw [← hm.unlimited] at hafter
    exact hafter

end Stages

/-- Where the store takes every write and new ids are new to the store and the pack, a pack whose documents
go to its own collections is installed at once exactly where it is installed in stages: first without its
documents, then these with the ids of the collections that stand by then. Both add the same rows, up to a
renaming of ids that were given on the way. -/
theorem installPack_staged (engine : Engine) (pack : Pack)
    (howners : ∀ spec ∈ pack.documents, pack.HasEntry .collection spec.collectionId)
    (hentities : pack.entityCount ≤ engine.config.maxPackEntities)
    (hbatch : pack.documents.length ≤ engine.config.maxBatchDocuments)
    (hbudget : engine.store.budget = none) (hn : engine.supply.NewFor engine.store.committed)
    (hnew : engine.supply.NewTo pack) :
    (∀ base middle, engine.installPack pack.withoutDocuments = (.ok base, middle) →
      ∃ specs, pack.stagedOn base = some specs) ∧
    ((∃ installed after, engine.installPack pack = (.ok installed, after)) ↔
      ∃ after, engine.InstallsInStages pack after) ∧
    ∀ installed atOnce inStages, engine.installPack pack = (.ok installed, atOnce) →
      engine.InstallsInStages pack inStages → engine.AddedAlike inStages atOnce := by
  refine ⟨?_, ⟨?_, ?_⟩, ?_⟩
  · intro installed middle hinstalled
    obtain ⟨hissues, hrun⟩ := installPack_eq_ok_iff.1 hinstalled
    obtain ⟨work, hreturns, -, -⟩ := run_eq_ok_iff.1 hrun
    obtain ⟨base, hbase, rfl⟩ := Operation.returns_newPack_withoutDocuments.1 hreturns
    obtain ⟨specs, hspecs, -⟩ := Operation.exists_stages_of_newPackBase howners
      (Pack.checked_of_issues_eq_nil hissues).usable engine.validator hbase
    exact ⟨specs, hspecs⟩
  · rintro ⟨installed, after, hinstalled⟩
    exact installsInStages_of_installPack howners hn hnew hentities hbudget hbatch hinstalled
  · rintro ⟨after, hstages⟩
    obtain ⟨installed, atOnce, hinstalled, -⟩ :=
      installPack_of_installsInStages howners hn hnew hentities hbudget hstages
    exact ⟨installed, atOnce, hinstalled⟩
  · intro installed atOnce inStages hinstalled hstages
    obtain ⟨_, _, hother, halike⟩ :=
      installPack_of_installsInStages howners hn hnew hentities hbudget hstages
    cases hinstalled.symm.trans hother
    exact halike

theorem newTo_friends (supply : Supply) : supply.NewTo friendsPack := by
  have hprotos := selfContained_friends.references
  refine hprotos.and_imp hprotos fun kind text hproto _ n _ hid => ?_
  obtain ⟨p, rfl⟩ := hproto
  exact ((supply.suffix n).toId kind).text_ne_protoId p hid.symm

/-- The friends are installed at once, so that they are installed in stages. -/
theorem installsInStages_friends :
    let engine : Engine := { supply := .growing }
    (∀ spec ∈ friendsPack.documents, friendsPack.HasEntry .collection spec.collectionId) ∧
      friendsPack.entityCount ≤ engine.config.maxPackEntities ∧
      friendsPack.documents.length ≤ engine.config.maxBatchDocuments ∧
      engine.store.budget = none ∧ engine.supply.NewFor engine.store.committed ∧
      engine.supply.NewTo friendsPack ∧
      ∃ installed atOnce inStages, engine.installPack friendsPack = (.ok installed, atOnce) ∧
        engine.InstallsInStages friendsPack inStages ∧ engine.AddedAlike inStages atOnce := by
  intro engine
  have hok : (engine.installPack friendsPack).1.isOk = true := by decide +kernel
  have hn := Supply.newFor_empty Supply.growing_injective
  have howners : ∀ spec ∈ friendsPack.documents,
      (Demand.collection spec.collectionId).Met friendsPack := by decide
  generalize houtcome : engine.installPack friendsPack = outcome at hok
  obtain ⟨result, atOnce⟩ := outcome
  cases result with
  | error error => cases hok
  | ok installed =>
      obtain ⟨-, hiff, halike⟩ := installPack_staged engine friendsPack howners (by decide) (by decide)
        rfl hn (newTo_friends _)
      obtain ⟨inStages, hstages⟩ := hiff.1 ⟨installed, atOnce, houtcome⟩
      exact ⟨howners, by decide, by decide, rfl, hn, newTo_friends _, installed, atOnce, inStages, rfl,
        hstages, halike _ _ _ houtcome hstages⟩

end Engine

end ContentStore
