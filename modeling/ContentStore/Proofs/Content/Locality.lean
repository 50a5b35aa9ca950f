import ContentStore.Proofs.Content.Positions
import ContentStore.Proofs.Content.Substitution
import ContentStore.Proofs.Schema.Chains
import Mathlib.Data.List.Sigma

/-!
# What a change of content changes

Another value at one position changes the issues below this position alone: they stand together among the
issues, and what stands before and after them does not depend on the value.
-/

namespace ContentStore

/-! ### Values changed at one place -/

namespace Json

def modifyMember (key : String) (f : Json → Json) (members : List (String × Json)) :
    List (String × Json) :=
  members.map fun member => (member.1, if member.1 = key then f member.2 else member.2)

@[simp] theorem keys_modifyMember (key : String) (f : Json → Json) (members : List (String × Json)) :
    Entries.keys (modifyMember key f members) = Entries.keys members := by
  simp [modifyMember, Entries.keys]

theorem lookup_modifyMember (key : String) (f : Json → Json) (members : List (String × Json))
    (other : String) : (modifyMember key f members).lookup other =
      (members.lookup other).map fun value => if other = key then f value else value :=
  Entries.lookup_map (fun name value => if name = key then f value else value) other members

/-- A value with its part at the end of a path changed. A path that leads nowhere changes nothing. -/
def modifyAt (f : Json → Json) : Path → Json → Json
  | [], value => f value
  | .name key :: path, .object members => .object (modifyMember key (modifyAt f path) members)
  | .index place :: path, .array items => .array (items.modify place (modifyAt f path))
  | _, value => value

def replaceAt (value : Json) (path : Path) (new : Json) : Json :=
  modifyAt (fun _ => new) path value

theorem modifyAt_id (path : Path) (value : Json) : modifyAt id path value = value := by
  induction path generalizing value with
  | nil => rfl
  | cons segment path ih =>
      have hid : modifyAt id path = id := funext ih
      cases segment <;> cases value <;> simp [modifyAt, modifyMember, hid]

theorem zipIdx_modify (place : Nat) (f : Json → Json) (items : List Json) :
    (items.modify place f).zipIdx =
      items.zipIdx.map fun item => (if item.2 = place then f item.1 else item.1, item.2) := by
  apply List.ext_getElem?
  intro other
  by_cases h : place = other
  · subst h
    simp [Function.comp_def]
  · have h' : other ≠ place := Ne.symm h
    simp [Function.comp_def, h, h']

end Json

/-! ### Gathering around one part -/

section Gather

variable {ε α β κ : Type}

theorem gather_around {front back : List (Except ε (List α))} {before after : List α}
    (hfront : gather front = .ok before) (hback : gather back = .ok after)
    (part : Except ε (List α)) :
    gather (front ++ part :: back) = part.map fun here => before ++ here ++ after := by
  induction front generalizing before with
  | nil =>
      cases hfront
      cases part with
      | ok here => simp [hback, Except.map]
      | error e => rfl
  | cons first rest ih =>
      obtain ⟨here, others, rfl, hrest, rfl⟩ := gather_cons_eq_ok.1 hfront
      rw [List.cons_append, gather_ok_cons, ih hrest]
      cases part <;> simp [Except.map]

/-- What is gathered before and after one part comes from the others, and stays what it is as long as they
do. -/
theorem exists_gather_around (key : β → κ) {parts : List β} {f : β → Except ε (List α)} {part : β}
    (hn : (parts.map key).Nodup) (hp : part ∈ parts) (hf : ∀ other ∈ parts, ∃ here, f other = .ok here) :
    ∃ before after : List α,
      (∀ a ∈ before ++ after, ∃ other ∈ parts, key other ≠ key part ∧
        ∃ there, f other = .ok there ∧ a ∈ there) ∧
      ∀ g : β → Except ε (List α), (∀ other ∈ parts, key other ≠ key part → g other = f other) →
        gather (parts.map g) = (g part).map fun here => before ++ here ++ after := by
  obtain ⟨front, back, rfl⟩ := List.append_of_mem hp
  have hne : ∀ other ∈ front ++ back, key other ≠ key part := by
    intro other hother he
    rw [List.map_append, List.map_cons, List.nodup_middle, ← List.map_append] at hn
    exact (List.nodup_cons.1 hn).1 (he ▸ List.mem_map_of_mem hother)
  have hside : ∀ side : List β, (∀ other ∈ side, other ∈ front ++ back) →
      ∃ all, gather (side.map f) = .ok all ∧
        (∀ a ∈ all, ∃ other ∈ front ++ part :: back, key other ≠ key part ∧
          ∃ there, f other = .ok there ∧ a ∈ there) ∧
        ∀ g : β → Except ε (List α),
          (∀ other ∈ front ++ part :: back, key other ≠ key part → g other = f other) →
            side.map g = side.map f := by
    intro side hsub
    have hmem : ∀ other ∈ side, other ∈ front ++ part :: back := fun other ho =>
      List.mem_append.2 ((List.mem_append.1 (hsub other ho)).imp_right (List.mem_cons_of_mem _))
    obtain ⟨all, hall⟩ := exists_gather
      (List.forall_mem_map.2 fun other ho => hf other (hmem other ho))
    refine ⟨all, hall, fun a ha => ?_, fun g hg => ?_⟩
    · obtain ⟨other, ho, there, hthere, ha⟩ := (mem_gather_iff hall).1 ha
      exact ⟨other, hmem other ho, hne other (hsub other ho), there, hthere, ha⟩
    · exact List.map_congr_left fun other ho => hg other (hmem other ho) (hne other (hsub other ho))
  obtain ⟨before, hbefore, horigin, hfront⟩ := hside front fun other ho => by simp [ho]
  obtain ⟨after, hafter, horigin', hback⟩ := hside back fun other ho => by simp [ho]
  refine ⟨before, after, fun a ha => ?_, fun g hg => ?_⟩
  · exact (List.mem_append.1 ha).elim (horigin a) (horigin' a)
  · rw [List.map_append, List.map_cons, hfront g hg, hback g hg]
    exact gather_around hbefore hafter (g part)

end Gather

theorem Issue.map_below_nil (issues : List Issue) : issues.map (Issue.below []) = issues :=
  List.map_id' issues

namespace Schema

variable {schema : Schema} {d part target : Definition} {value leaf : Json} {path : Path}

/-! ### Positions -/

theorem Types.sound (hs : schema.checkStructure = .ok ()) (h : schema.Types d value path target leaf)
    (hd : schema.Sound d) : schema.Sound target := by
  induction h with
  | here => exact hd
  | ref declared _ ih => exact ih (sound_of_get? hs declared)
  | member declared _ _ ih => exact ih (hd.property declared)
  | item _ _ ih => exact ih hd.items

/-- A changed value has the same position, with the changed part there. -/
theorem types_modifyAt (h : schema.Types d value path target leaf) (f : Json → Json) :
    schema.Types d (Json.modifyAt f path value) path target (f leaf) := by
  induction h with
  | here => exact .here
  | ref declared _ ih => exact .ref declared ih
  | @member _ _ members key _ _ _ _ path declared holds _ ih =>
      refine .member declared ?_ ih
      simp [Json.lookup_modifyMember, holds]
  | item holds _ ih =>
      refine .item ?_ ih
      simp [holds]

/-- The path ends in a property that its struct lists as nullable. -/
def NullAllowed (schema : Schema) (d : Definition) (value : Json) (path : Path) : Prop :=
  ∃ above key properties nullable members, path = above ++ [.name key] ∧
    schema.Types d value above (.struct properties nullable) (.object members) ∧
    nullable.contains key = true

theorem not_nullAllowed_nil : ¬ schema.NullAllowed d value [] := by
  rintro ⟨above, key, _, _, _, he, -, -⟩
  simp at he

theorem nullAllowed_ref_iff {name : String} {next : Definition}
    (h : schema.types.get? name = some next) :
    schema.NullAllowed (.ref name) value path ↔ schema.NullAllowed next value path := by
  constructor
  · rintro ⟨above, key, properties, nullable, members, rfl, htypes, hkey⟩
    cases htypes with
    | ref declared below =>
        cases h.symm.trans declared
        exact ⟨above, key, properties, nullable, members, rfl, below, hkey⟩
  · rintro ⟨above, key, properties, nullable, members, rfl, htypes, hkey⟩
    exact ⟨above, key, properties, nullable, members, rfl, .ref h htypes, hkey⟩

theorem nullAllowed_name_iff {properties : List (String × Definition)} {nullable : SortedSet String}
    {members : List (String × Json)} {key : String} :
    schema.NullAllowed (.struct properties nullable) (.object members) [.name key] ↔
      nullable.contains key = true := by
  constructor
  · rintro ⟨above, last, _, _, _, he, htypes, hkey⟩
    obtain ⟨rfl, hlast⟩ := List.append_inj' (show [] ++ [Segment.name key] = _ from he) rfl
    cases hlast
    cases htypes
    exact hkey
  · intro h
    exact ⟨[], key, properties, nullable, members, rfl, .here, h⟩

/-- Below its first step, a path is judged from where the step leads. -/
theorem nullAllowed_cons_iff {segment : Segment} {child : Json} (hne : path ≠ [])
    (hstep : ∀ {above : Path} {target : Definition} {leaf : Json},
      schema.Types d value (segment :: above) target leaf ↔ schema.Types part child above target leaf) :
    schema.NullAllowed d value (segment :: path) ↔ schema.NullAllowed part child path := by
  constructor
  · rintro ⟨above, last, properties, nullable, members, he, htypes, hlast⟩
    cases above with
    | nil => exact absurd (List.cons.inj he).2 hne
    | cons first above =>
        obtain ⟨rfl, rfl⟩ := List.cons.inj he
        exact ⟨above, last, properties, nullable, members, rfl, hstep.1 htypes, hlast⟩
  · rintro ⟨above, last, properties, nullable, members, rfl, htypes, hlast⟩
    exact ⟨segment :: above, last, properties, nullable, members, rfl, hstep.2 htypes, hlast⟩

theorem types_member_iff {properties : List (String × Definition)} {nullable : SortedSet String}
    {members : List (String × Json)} {key : String}
    (hk : (Entries.keys properties).Nodup) (hp : (key, part) ∈ properties)
    (hl : members.lookup key = some value) :
    schema.Types (.struct properties nullable) (.object members) (.name key :: path) target leaf ↔
      schema.Types part value path target leaf := by
  constructor
  · intro h
    cases h with
    | member declared holds below =>
        cases hl.symm.trans holds
        cases List.inj_on_of_nodup_map hk hp declared rfl
        exact below
  · exact .member hp hl

theorem types_item_iff {element : Definition} {items : List Json} {place : Nat}
    (hl : items[place]? = some value) :
    schema.Types (.list element) (.array items) (.index place :: path) target leaf ↔
      schema.Types element value path target leaf := by
  constructor
  · intro h
    cases h with
    | item holds below =>
        cases hl.symm.trans holds
        exact below
  · exact .item hl

/-- An item of an array may be null nowhere but inside. -/
theorem nullAllowed_item_iff {element : Definition} {items : List Json} {place : Nat}
    (hl : items[place]? = some value) :
    schema.NullAllowed (.list element) (.array items) (.index place :: path) ↔
      schema.NullAllowed element value path := by
  cases path with
  | nil =>
      have hindex : ¬ schema.NullAllowed (.list element) (.array items) [.index place] := by
        rintro ⟨above, key, _, _, _, he, -, -⟩
        obtain ⟨-, hlast⟩ := List.append_inj' (show [] ++ [Segment.index place] = _ from he) rfl
        cases hlast
      simp [hindex, not_nullAllowed_nil]
  | cons segment path => exact nullAllowed_cons_iff (List.cons_ne_nil _ _) (types_item_iff hl)

end Schema

namespace Validator

open Schema

variable {v : Validator} {schema : Schema} {d part target : Definition} {value leaf : Json} {path : Path}

/-- The findings at a position: a null that is allowed there has none. -/
def positionFindings (v : Validator) (schema : Schema) (d : Definition) (nullAllowed : Bool)
    (value : Json) : Findings :=
  if value.isNull && nullAllowed then .ok [] else v.findings schema value d

theorem exists_positionFindings (nullAllowed : Bool) {alone : List Issue}
    (h : v.findings schema value d = .ok alone) :
    ∃ found, v.positionFindings schema d nullAllowed value = .ok found ∧
      (value = .null ∧ nullAllowed = true → found = []) ∧
      (¬ (value = .null ∧ nullAllowed = true) → found = alone) := by
  by_cases hnull : value = .null ∧ nullAllowed = true
  · obtain ⟨rfl, rfl⟩ := hnull
    exact ⟨[], rfl, fun _ => rfl, fun hn => absurd ⟨rfl, rfl⟩ hn⟩
  · refine ⟨alone, ?_, fun hn => absurd hn hnull, fun _ => rfl⟩
    rw [← h, positionFindings, if_neg]
    rwa [Bool.and_eq_true_iff, Json.isNull_iff]

theorem findings_congr {other : Definition} (h : schema.resolve d = schema.resolve other) (value : Json) :
    v.findings schema value d = v.findings schema value other := by
  cases value <;> simp only [findings, h]

theorem findings_ref {name : String} {next : Definition} (declared : schema.types.get? name = some next)
    (hd : schema.Sound next) (value : Json) :
    v.findings schema value (.ref name) = v.findings schema value next := by
  obtain ⟨target, htarget⟩ := hd.exists_resolve
  obtain ⟨names, hchain⟩ := resolve_eq_ok_iff.1 htarget
  have hname : schema.resolve (.ref name) = .ok target :=
    resolve_eq_ok_iff.2 ⟨name :: names, .step declared hchain⟩
  exact findings_congr (hname.trans htarget.symm) value

/-- What another value under one declared key of an object changes among the findings. -/
theorem findings_struct_around {properties : List (String × Definition)} {nullable : SortedSet String}
    {members : List (String × Json)} {key : String} (hk : (Entries.keys properties).Nodup)
    (hp : (key, part) ∈ properties) (hl : members.lookup key = some value)
    (hothers : ∀ property ∈ properties, ∃ here,
      v.propertyIssues schema members nullable property = .ok here) :
    ∃ before after, (∀ issue ∈ before ++ after, ∀ path, ¬ .name key :: path <+: issue.path) ∧
      ∀ f : Json → Json,
        v.findings schema (.object (Json.modifyMember key f members)) (.struct properties nullable) =
          (v.positionFindings schema part (nullable.contains key) (f value)).map fun here =>
            before ++ here.map (Issue.under (.name key)) ++ after := by
  obtain ⟨before, after, horigin, haround⟩ := exists_gather_around Prod.fst hk hp hothers
  let unknown := unknownKeyIssues (Entries.keys properties) members
  refine ⟨before, after ++ unknown, fun issue hissue path hprefix => ?_, fun f => ?_⟩
  · have hbelow : Issue.isBelow (.name key :: path) issue = true := List.isPrefixOf_iff_prefix.2 hprefix
    rw [← List.append_assoc] at hissue
    rcases List.mem_append.1 hissue with hissue | hissue
    · obtain ⟨other, -, hne, there, hthere, hissue⟩ := horigin issue hissue
      exact List.filter_eq_nil_iff.1 (filter_propertyIssues_of_ne hthere hne path) issue hissue hbelow
    · have hnone := filter_unknownKeyIssues (List.mem_map_of_mem (f := Prod.fst) hp) members path
      exact List.filter_eq_nil_iff.1 hnone issue hissue hbelow
  · have hpart : v.propertyIssues schema (Json.modifyMember key f members) nullable (key, part) =
        (v.positionFindings schema part (nullable.contains key) (f value)).map
          (List.map (Issue.under (.name key))) := by
      simp only [propertyIssues, Json.lookup_modifyMember, hl, Option.map_some, if_true, positionFindings]
      split <;> rfl
    have hsame : ∀ property ∈ properties, property.1 ≠ key →
        v.propertyIssues schema (Json.modifyMember key f members) nullable property =
          v.propertyIssues schema members nullable property := by
      intro property _ hne
      simp [propertyIssues, Json.lookup_modifyMember, hne]
    rw [findings_struct rfl, unknownKeyIssues_congr (Json.keys_modifyMember key f members),
      haround _ hsame, hpart]
    cases v.positionFindings schema part (nullable.contains key) (f value) <;>
      simp [Except.map, unknown]

theorem exists_propertyIssues (hs : schema.checkStructure = .ok ())
    {properties : List (String × Definition)} {nullable : SortedSet String}
    (hd : schema.Sound (.struct properties nullable)) (members : List (String × Json)) :
    ∀ property ∈ properties, ∃ here, v.propertyIssues schema members nullable property = .ok here := by
  intro property hproperty
  obtain ⟨issues, hissues⟩ := v.exists_findings hs hd (.object members)
  rw [findings_struct rfl] at hissues
  obtain ⟨all, hall, -⟩ := map_eq_ok_iff.1 hissues
  exact exists_of_gather hall (List.mem_map_of_mem hproperty)

/-- What another item at one place of an array changes among the findings. -/
theorem findings_list_around {element : Definition} {items : List Json} {place : Nat}
    (hl : items[place]? = some value)
    (hothers : ∀ item ∈ items, ∃ here, v.findings schema item element = .ok here) :
    ∃ before after, (∀ issue ∈ before ++ after, ∀ path, ¬ .index place :: path <+: issue.path) ∧
      ∀ f : Json → Json, v.findings schema (.array (items.modify place f)) (.list element) =
        (v.findings schema (f value) element).map fun here =>
          before ++ here.map (Issue.under (.index place)) ++ after := by
  have hplaces : (items.zipIdx.map Prod.snd).Nodup := List.nodup_zipIdx_map_snd items
  have hitem : (value, place) ∈ items.zipIdx := List.mk_mem_zipIdx_iff_getElem?.2 hl
  obtain ⟨before, after, horigin, haround⟩ := exists_gather_around Prod.snd hplaces hitem
    (f := fun item => (v.findings schema item.1 element).map (List.map (Issue.under (.index item.2)))) (by
      intro other hother
      obtain ⟨here, hhere⟩ := hothers other.1 (List.fst_mem_of_mem_zipIdx hother)
      exact ⟨_, map_eq_ok_iff.2 ⟨here, hhere, rfl⟩⟩)
  refine ⟨before, after, fun issue hissue path hprefix => ?_, fun f => ?_⟩
  · obtain ⟨other, -, hne, there, hthere, hissue⟩ := horigin issue hissue
    obtain ⟨found, -, rfl⟩ := map_eq_ok_iff.1 hthere
    have hnone := Issue.filter_isBelow_under_of_ne (fun he => hne (Segment.index.inj he)) path found
    exact List.filter_eq_nil_iff.1 hnone issue hissue (List.isPrefixOf_iff_prefix.2 hprefix)
  · rw [findings_list rfl, Json.zipIdx_modify, List.map_map, haround _ (by
      intro other _ hne
      simp [hne])]
    cases h : v.findings schema (f value) element <;> simp [Except.map, h]

/-- A value with something below it stays one that is not null when this is changed. -/
theorem isNull_modifyAt {segment : Segment} (h : schema.Types d value (segment :: path) target leaf)
    (f : Json → Json) : (Json.modifyAt f (segment :: path) value).isNull = false := by
  generalize hpath : segment :: path = whole at h
  induction h with
  | here => cases hpath
  | ref _ _ ih => exact ih hpath
  | member => rfl
  | item => rfl

/-- At the position of a value itself stands the value, under what its definition refers to. -/
theorem findings_of_types_nil (hs : schema.checkStructure = .ok ()) (hd : schema.Sound d)
    (h : schema.Types d value [] target leaf) :
    leaf = value ∧ ∀ other, v.findings schema other d = v.findings schema other target := by
  generalize hpath : ([] : Path) = path at h
  induction h with
  | here => exact ⟨rfl, fun _ => rfl⟩
  | ref declared _ ih =>
      have hnext := sound_of_get? hs declared
      obtain ⟨hleaf, hcheck⟩ := ih hnext hpath
      exact ⟨hleaf, fun other => (findings_ref declared hnext other).trans (hcheck other)⟩
  | member => cases hpath
  | item => cases hpath

/-- Findings around those of a part, seen from the value that holds the part. -/
theorem map_around_under (findings : Findings) (segment : Segment) (path : Path)
    (inner outer inner' outer' : List Issue) :
    ((findings.map fun here => inner ++ here.map (Issue.below path) ++ inner').map fun here =>
        outer ++ here.map (Issue.under segment) ++ outer') =
      findings.map fun here => (outer ++ inner.map (Issue.under segment)) ++
        here.map (Issue.below (segment :: path)) ++ (inner'.map (Issue.under segment) ++ outer') := by
  cases findings with
  | ok here => simp [Except.map, ← Issue.map_under_map_below]
  | error e => rfl

theorem not_below_around {segment : Segment} {inner outer inner' outer' : List Issue}
    (hinner : ∀ issue ∈ inner ++ inner', ¬ path <+: issue.path)
    (houter : ∀ issue ∈ outer ++ outer', ∀ path, ¬ segment :: path <+: issue.path) :
    ∀ issue ∈ (outer ++ inner.map (Issue.under segment)) ++ (inner'.map (Issue.under segment) ++ outer'),
      ¬ segment :: path <+: issue.path := by
  intro issue hissue
  have hcases : issue ∈ outer ++ outer' ∨ issue ∈ (inner ++ inner').map (Issue.under segment) := by
    simp only [List.map_append, List.mem_append] at hissue ⊢
    tauto
  rcases hcases with hissue | hissue
  · exact houter issue hissue path
  · obtain ⟨part, hpart, rfl⟩ := List.mem_map.1 hissue
    exact fun hprefix => hinner part hpart (List.cons_prefix_cons.1 hprefix).2

/-- The findings of a value around those at one of its positions. -/
theorem findings_modifyAt (hs : schema.checkStructure = .ok ()) (hd : schema.Sound d) (hk : d.DistinctKeys)
    (h : schema.Types d value path target leaf) :
    ∃ before after nullAllowed, (nullAllowed = true ↔ schema.NullAllowed d value path) ∧
      (∀ issue ∈ before ++ after, ¬ path <+: issue.path) ∧
      ∀ f : Json → Json, v.findings schema (Json.modifyAt f path value) d =
        (v.positionFindings schema target nullAllowed (f leaf)).map fun here =>
          before ++ here.map (Issue.below path) ++ after := by
  induction h with
  | @here d value =>
      refine ⟨[], [], false, by simp [not_nullAllowed_nil], by simp, fun f => ?_⟩
      simp only [positionFindings, Bool.and_false, Bool.false_eq_true, if_false]
      change v.findings schema (f value) d = _
      cases v.findings schema (f value) d <;> simp [Except.map, Issue.map_below_nil]
  | ref declared _ ih =>
      obtain ⟨before, after, nullAllowed, hnull, hothers, haround⟩ :=
        ih (sound_of_get? hs declared) (schema.distinct _ (Entries.mem_of_lookup declared))
      refine ⟨before, after, nullAllowed, ?_, hothers, fun f => ?_⟩
      · rw [nullAllowed_ref_iff declared]
        exact hnull
      · rw [findings_ref declared (sound_of_get? hs declared)]
        exact haround f
  | @member properties nullable members key part target value leaf path declared holds below ih =>
      have hkeys : (Entries.keys properties).Nodup := hk.1
      have hpart := hd.property declared
      have hdistinct := Definition.distinctPropertyKeys_iff.1 hk.2 _ declared
      obtain ⟨outer, outer', houter, hfindings⟩ :=
        findings_struct_around (v := v) hkeys declared holds (exists_propertyIssues hs hd members)
      cases path with
      | nil =>
          obtain ⟨rfl, hcheck⟩ := findings_of_types_nil (v := v) hs hpart below
          refine ⟨outer, outer', nullable.contains key, nullAllowed_name_iff.symm,
            fun issue hissue => houter issue hissue [], fun f => ?_⟩
          have hsame : v.positionFindings schema part (nullable.contains key) (f leaf) =
              v.positionFindings schema target (nullable.contains key) (f leaf) := by
            simp only [positionFindings, hcheck]
          rw [← hsame]
          exact hfindings f
      | cons segment path =>
          obtain ⟨inner, inner', nullAllowed, hnull, hinner, haround⟩ := ih hpart hdistinct
          refine ⟨_, _, nullAllowed, ?_, not_below_around hinner houter, fun f => ?_⟩
          · rw [nullAllowed_cons_iff (List.cons_ne_nil _ _) (types_member_iff hkeys declared holds)]
            exact hnull
          · have hfree : v.positionFindings schema part (nullable.contains key)
                  (Json.modifyAt f (segment :: path) value) =
                v.findings schema (Json.modifyAt f (segment :: path) value) part := by
              simp [positionFindings, isNull_modifyAt below f]
            rw [← map_around_under, ← haround f, ← hfree]
            exact hfindings (Json.modifyAt f (segment :: path))
  | @item element target items place value leaf path holds below ih =>
      have hitem := hd.items
      obtain ⟨outer, outer', houter, hfindings⟩ :=
        findings_list_around (v := v) holds fun item _ => exists_findings hs hitem item
      obtain ⟨inner, inner', nullAllowed, hnull, hinner, haround⟩ := ih hitem hk
      refine ⟨_, _, nullAllowed, hnull.trans (nullAllowed_item_iff holds).symm,
        not_below_around hinner houter, fun f => ?_⟩
      rw [← map_around_under, ← haround f]
      exact hfindings (Json.modifyAt f path)

/-- Content has the same issues apart from one position whatever stands at this position. Below the
position stand the issues that a run over the value there, alone under its definition, reports, with the
path put in front; a null that is allowed there has none. And from any path, after any issues, a run over
the value adds just these issues with that path put in front, and comes back to the path. -/
theorem validate_replaceAt (v : Validator) (hs : schema.checkStructure = .ok ()) {root : Definition}
    {content old : Json} (hroot : schema.types.get? schema.rootType = some root)
    (h : schema.Types root content path d old) :
    ∃ before here after, v.validate schema content = .ok (before ++ here ++ after) ∧
      (∀ issue ∈ here, path <+: issue.path) ∧ (∀ issue ∈ before ++ after, ¬ path <+: issue.path) ∧
      ∀ new, schema.Types root (content.replaceAt path new) path d new ∧
        ∃ found alone, v.validate schema (content.replaceAt path new) = .ok (before ++ found ++ after) ∧
          v.issues schema new d = .ok alone ∧
          (∀ trail : Trail (List Issue), v.check schema new d trail = .ok ((),
            { trail with gathered := trail.gathered ++ alone.map (Issue.below trail.path) })) ∧
          (new = .null ∧ schema.NullAllowed root content path → found = []) ∧
          (¬ (new = .null ∧ schema.NullAllowed root content path) →
            found = alone.map (Issue.below path)) := by
  have hroot' := root_eq_ok_iff.2 hroot
  have hd := sound_of_root hs hroot'
  have htarget := h.sound hs hd
  obtain ⟨before, after, nullAllowed, hnull, hothers, haround⟩ :=
    findings_modifyAt (v := v) hs hd (distinctKeys_of_root hroot') h
  simp only [validate_of_root hs hroot', ← hnull]
  obtain ⟨alone, halone⟩ := v.exists_findings hs htarget old
  obtain ⟨here, hhere, -, -⟩ := exists_positionFindings nullAllowed halone
  refine ⟨before, here.map (Issue.below path), after, ?_, ?_, hothers, fun new => ?_⟩
  · have hold := haround id
    rwa [Json.modifyAt_id, id_eq, hhere] at hold
  · exact List.forall_mem_map.2 fun issue _ => List.prefix_append path issue.path
  · obtain ⟨alone, halone⟩ := v.exists_findings hs htarget new
    have hrun : v.issues schema new d = .ok alone := (v.issues_eq_findings schema new d).trans halone
    obtain ⟨found, hfound, hempty, hfull⟩ := exists_positionFindings nullAllowed halone
    refine ⟨types_modifyAt h _, found.map (Issue.below path), alone, ?_, hrun, check_eq_of_issues hrun,
      ?_, ?_⟩
    · rw [Json.replaceAt, haround, hfound]
      rfl
    · intro hn
      rw [hempty hn, List.map_nil]
    · intro hn
      rw [hfull hn]

/-- An album whose cover is no file contains one whose cover is taken away or replaced by no file: the
fault of the outer cover stays where it is. -/
theorem validate_replaced_cover :
    let v : Validator := { formats := .builtins }
    let cover := fileReference "File_c" "cover.png" "image/png"
    let content := album (.bool true) [album cover []]
    let path : Path := [.name "parts", .index 0, .name "cover"]
    albums.checkStructure = .ok () ∧ ∃ root, albums.types.get? albums.rootType = some root ∧
      albums.Types root content path (.file none) cover ∧ albums.NullAllowed root content path ∧
      ∃ before here after, v.validate albums content = .ok (before ++ here ++ after) ∧
        v.validate albums (content.replaceAt path .null) = .ok (before ++ after) ∧
        v.validate albums (content.replaceAt path (.bool true)) =
          .ok (before ++ [Fault.notAFile.issue path] ++ after) := by
  intro v cover content path
  let root : Definition := .struct [("author", .documentRef none), ("cover", .file none),
    ("parts", .list (.ref "Album"))] (SortedSet.ofList ["cover"])
  have hs : albums.checkStructure = .ok () := by
    decide +kernel
  have hroot : albums.types.get? "Album" = some root := rfl
  have hinner : albums.Types root content [.name "parts", .index 0] root (album cover []) :=
    .member (by simp) rfl (.item rfl (.ref hroot .here))
  have hcover : albums.Types root content path (.file none) cover :=
    .member (by simp) rfl (.item rfl (.ref hroot (.member (by simp) rfl .here)))
  have hnull : albums.NullAllowed root content path :=
    ⟨_, "cover", _, _, _, rfl, hinner, by decide +kernel⟩
  have hwrong : v.issues albums (.bool true) (.file none) = .ok [Fault.notAFile.issue []] := by
    decide +kernel
  obtain ⟨before, here, after, hbefore, -, -, hreplaced⟩ := validate_replaceAt v hs hroot hcover
  obtain ⟨-, taken, -, htaken, -, -, hempty, -⟩ := hreplaced .null
  obtain ⟨-, wrong, alone, hvalidated, halone, -, -, hfull⟩ := hreplaced (.bool true)
  cases hwrong.symm.trans halone
  rw [hempty ⟨rfl, hnull⟩, List.append_nil] at htaken
  rw [hfull (by simp)] at hvalidated
  exact ⟨hs, root, hroot, hcover, hnull, before, here, after, hbefore, htaken, hvalidated⟩

end Validator

end ContentStore
