import ContentStore.Proofs.Content.Course
import ContentStore.Proofs.Content.IssuePaths
import ContentStore.Proofs.Content.Locality

/-!
# The two walks in step

The changing walk comes where the reading walk comes, in the same order, and finds there what stood there
before the walk, whatever its visitor puts in the places it came to before. An error ends both after the
same visit.
-/

namespace ContentStore

/-! ## Paths apart -/

/-- Neither of two paths continues the other. -/
def Path.Apart (path other : Path) : Prop :=
  ¬ path <+: other ∧ ¬ other <+: path

namespace Path

theorem apart_cons_iff {segment other : Segment} {path rest : Path} :
    Apart (segment :: path) (other :: rest) ↔ (segment = other → Apart path rest) := by
  unfold Apart
  rw [List.cons_prefix_cons, List.cons_prefix_cons]
  tauto

theorem not_nil_apart (path : Path) : ¬ Apart [] path :=
  fun h => h.1 (List.nil_prefix)

theorem not_apart_nil (path : Path) : ¬ Apart path [] :=
  fun h => h.2 (List.nil_prefix)

end Path

/-! ## Parts put into a value one after another -/

namespace Json

theorem setMember_eq_modifyMember (key : String) (value : Json) (members : List (String × Json)) :
    setMember key value members = modifyMember key (fun _ => value) members := by
  refine List.map_congr_left fun member _ => ?_
  obtain ⟨name, held⟩ := member
  by_cases h : name = key <;> simp [h]

theorem modifyMember_modifyMember (key : String) (f g : Json → Json) (members : List (String × Json)) :
    modifyMember key g (modifyMember key f members) = modifyMember key (g ∘ f) members := by
  simp only [modifyMember, List.map_map]
  refine List.map_congr_left fun member _ => ?_
  by_cases h : member.1 = key <;> simp [h]

/-- If a key stands in an object once, what it holds is changed by putting the changed value there. -/
theorem modifyMember_eq_setMember {key : String} {value : Json} {members : List (String × Json)}
    (hn : (Entries.keys members).Nodup) (hl : members.lookup key = some value) (f : Json → Json) :
    modifyMember key f members = setMember key (f value) members := by
  rw [setMember_eq_modifyMember]
  refine List.map_congr_left fun member hm => ?_
  by_cases h : member.1 = key
  · have hmember : member = (key, value) := List.inj_on_of_nodup_map hn hm (Entries.mem_of_lookup hl) h
    simp [hmember]
  · simp [h]

theorem partAt?_modifyAt (f : Json → Json) {path : Path} {value part : Json}
    (h : value.partAt? path = some part) : (modifyAt f path value).partAt? path = some (f part) := by
  induction path generalizing value with
  | nil =>
      rw [partAt?_nil, Option.some.injEq] at h
      rw [modifyAt, partAt?_nil, h]
  | cons segment path ih =>
      cases segment <;> cases value <;> simp only [partAt?, reduceCtorEq] at h
      all_goals
        obtain ⟨below, hbelow, hpart⟩ := Option.bind_eq_some_iff.1 h
        simp [modifyAt, partAt?, lookup_modifyMember, hbelow, ih hpart]

theorem partAt?_modifyAt_of_apart (f : Json → Json) {path other : Path} (h : path.Apart other)
    (value : Json) : (modifyAt f path value).partAt? other = value.partAt? other := by
  induction path generalizing other value with
  | nil => exact absurd h (Path.not_nil_apart other)
  | cons segment path ih =>
      cases other with
      | nil => exact absurd h (Path.not_apart_nil _)
      | cons step other =>
          have hbelow := Path.apart_cons_iff.1 h
          cases segment <;> cases value <;> cases step <;> simp only [modifyAt, partAt?]
          case name.object.name key members key' =>
            rw [lookup_modifyMember]
            by_cases hkey : key' = key
            · subst hkey
              cases members.lookup key' <;> simp [ih (hbelow rfl)]
            · simp [hkey]
          case index.array.index place items place' =>
            by_cases hplace : place = place'
            · subst hplace
              cases hl : items[place]? <;> simp [hl, ih (hbelow rfl)]
            · simp [hplace]

def replaceEach (value : Json) (edits : List (Path × Json)) : Json :=
  edits.foldl (fun value edit => value.replaceAt edit.1 edit.2) value

theorem replaceEach_append (value : Json) (first second : List (Path × Json)) :
    value.replaceEach (first ++ second) = (value.replaceEach first).replaceEach second :=
  List.foldl_append

def editsUnder (segment : Segment) (edits : List (Path × Json)) : List (Path × Json) :=
  edits.map fun edit => (segment :: edit.1, edit.2)

theorem replaceEach_name (key : String) (members : List (String × Json)) (edits : List (Path × Json)) :
    (object members).replaceEach (editsUnder (.name key) edits) =
      .object (modifyMember key (replaceEach · edits) members) := by
  induction edits generalizing members with
  | nil => simp [replaceEach, editsUnder, modifyMember]
  | cons edit edits ih =>
      have hrest := ih (modifyMember key (modifyAt (fun _ => edit.2) edit.1) members)
      rw [modifyMember_modifyMember] at hrest
      exact hrest

theorem replaceEach_index (place : Nat) (items : List Json) (edits : List (Path × Json)) :
    (array items).replaceEach (editsUnder (.index place) edits) =
      .array (items.modify place (replaceEach · edits)) := by
  induction edits generalizing items with
  | nil => exact congrArg array (List.modify_id place items).symm
  | cons edit edits ih =>
      have hrest := ih (items.modify place (modifyAt (fun _ => edit.2) edit.1))
      rw [List.modify_modify_eq] at hrest
      exact hrest

theorem partAt?_replaceEach_of_apart {path : Path} {edits : List (Path × Json)}
    (h : ∀ edit ∈ edits, edit.1.Apart path) (value : Json) :
    (value.replaceEach edits).partAt? path = value.partAt? path := by
  induction edits generalizing value with
  | nil => rfl
  | cons edit edits ih =>
      obtain ⟨hedit, hrest⟩ := List.forall_mem_cons.1 h
      exact (ih hrest _).trans (partAt?_modifyAt_of_apart _ hedit value)

/-- Parts that are put in apart from each other are all there at the end. -/
theorem partAt?_replaceEach {value : Json} {edits : List (Path × Json)}
    (ha : edits.Pairwise fun edit other => edit.1.Apart other.1)
    (hv : ∀ edit ∈ edits, ∃ part, value.partAt? edit.1 = some part) {edit : Path × Json}
    (he : edit ∈ edits) : (value.replaceEach edits).partAt? edit.1 = some edit.2 := by
  induction edits generalizing value with
  | nil => cases he
  | cons first edits ih =>
      obtain ⟨hfirst, hrest⟩ := List.pairwise_cons.1 ha
      obtain ⟨⟨part, hpart⟩, hparts⟩ := List.forall_mem_cons.1 hv
      have hnow : (value.replaceAt first.1 first.2).partAt? first.1 = some first.2 :=
        partAt?_modifyAt _ hpart
      rcases List.mem_cons.1 he with rfl | he
      · -- What comes after it is put in elsewhere.
        have hlater : ∀ other ∈ edits, other.1.Apart edit.1 := fun other ho =>
          ⟨(hfirst other ho).2, (hfirst other ho).1⟩
        exact (partAt?_replaceEach_of_apart hlater _).trans hnow
      · refine ih hrest (fun other ho => ?_) he
        obtain ⟨part, hpart⟩ := hparts other ho
        exact ⟨part, (partAt?_modifyAt_of_apart _ (hfirst other ho) value).trans hpart⟩

end Json

/-! ## What a visitor makes of a course -/

namespace Visitor

variable {σ : Type} {visitor : Visitor σ} {path : Path}

def edits (visitor : Visitor σ) (visits : List Visit) (s : σ) : List (Path × Json) :=
  (visitor.trace visits s).map fun pair => (pair.1.path, pair.2)

theorem edits_append (visitor : Visitor σ) (first second : List Visit) (s : σ) :
    visitor.edits (first ++ second) s =
      visitor.edits first s ++ visitor.edits second (visitor.final first s) := by
  simp [edits, trace_append]

theorem map_fst_edits (visitor : Visitor σ) (visits : List Visit) (s : σ) :
    (visitor.edits visits s).map Prod.fst = visits.map Visit.path := by
  induction visits generalizing s with
  | nil => rfl
  | cons visit rest ih =>
      have hrest := ih (visitor visit s).2
      simpa [edits, trace] using hrest

/-- A visitor that comes to visits of a part, seen from the value that the part is in; the path is the way
to the part, last step first. -/
def within (visitor : Visitor σ) (path : Path) : Visitor σ :=
  fun visit => visitor (visit.below path.reverse)

theorem within_under (visitor : Visitor σ) (path : Path) (segment : Segment) (visit : Visit) :
    visitor.within path (visit.under segment) = visitor.within (segment :: path) visit := by
  rw [within, within, Visit.below_under, List.reverse_cons]

theorem final_under (visitor : Visitor σ) (path : Path) (segment : Segment) (visits : List Visit)
    (s : σ) : (visitor.within path).final (visits.map (Visit.under segment)) s =
      (visitor.within (segment :: path)).final visits s := by
  simp only [final, List.foldl_map, within_under]

theorem edits_under (visitor : Visitor σ) (path : Path) (segment : Segment) (visits : List Visit)
    (s : σ) : (visitor.within path).edits (visits.map (Visit.under segment)) s =
      Json.editsUnder segment ((visitor.within (segment :: path)).edits visits s) := by
  induction visits generalizing s with
  | nil => rfl
  | cons visit rest ih =>
      have hrest := ih ((visitor.within (segment :: path) visit s).2)
      simp only [edits, Json.editsUnder, List.map_cons, trace, within_under] at hrest ⊢
      rw [hrest]
      rfl

/-- The visitor that also takes down where it comes. -/
def noting (visitor : Visitor σ) : Visitor (σ × List Visit) :=
  fun visit s => ((visitor visit s.1).1, (visitor visit s.1).2, s.2 ++ [visit])

theorem final_noting (visitor : Visitor σ) (visits noted : List Visit) (s : σ) :
    visitor.noting.final visits (s, noted) = (visitor.final visits s, noted ++ visits) := by
  induction visits generalizing s noted with
  | nil => simp [final]
  | cons visit rest ih =>
      have hrest := ih (noted ++ [visit]) (visitor visit s).2
      simpa [final, noting] using hrest

end Visitor

namespace Altered

variable {σ α β γ : Type}

theorem map_proceed (f : β → γ) (part : Altered σ α) (whole : α → β) (next : α → σ → Altered σ β) :
    (part.proceed whole next).map f = part.proceed (f ∘ whole) fun a s => (next a s).map f := by
  obtain ⟨value, state, error?⟩ := part
  cases error? <;> rfl

theorem proceed_map (f : α → β) (part : Altered σ α) (next : β → σ → Altered σ β) :
    (part.map f).proceed id next = part.proceed f fun a s => next (f a) s := by
  obtain ⟨value, state, error?⟩ := part
  cases error? <;> rfl

end Altered

namespace Course

variable {σ : Type} {visitor : Visitor σ} {path : Path}

/-- What a visitor makes of a value along a course: what it puts in the places of the visits is put into
the value, and nothing else happens. -/
def altered (course : Course) (visitor : Visitor σ) (value : Json) (s : σ) : Altered σ Json where
  value := value.replaceEach (visitor.edits course.visits s)
  state := visitor.final course.visits s
  error? := course.error?

theorem altered_andThen (first second : Course) (visitor : Visitor σ) (value : Json) (s : σ) :
    (first.andThen second).altered visitor value s =
      (first.altered visitor value s).proceed id (second.altered visitor) := by
  obtain ⟨visits, error?⟩ := first
  cases error? with
  | some e => rfl
  | none =>
      simp only [andThen, altered, Altered.proceed, Visitor.edits_append, Json.replaceEach_append,
        Visitor.final_append]

theorem altered_name {key : String} {value : Json} {members : List (String × Json)}
    (hn : (Entries.keys members).Nodup) (hl : members.lookup key = some value) (course : Course) (s : σ) :
    (course.under (.name key)).altered (visitor.within path) (.object members) s =
      (course.altered (visitor.within (.name key :: path)) value s).map fun new =>
        .object (Json.setMember key new members) := by
  simp only [under, altered, Altered.map, Visitor.edits_under, Visitor.final_under,
    Json.replaceEach_name, Json.modifyMember_eq_setMember hn hl]

private theorem modify_middle {front back : List Json} (item : Json) (f : Json → Json) :
    (front ++ item :: back).modify front.length f = front ++ f item :: back := by
  rw [List.modify_eq_take_cons_drop (by simp)]
  simp

theorem altered_index {item : Json} {front back : List Json} {place : Nat} (hp : place = front.length)
    (course : Course) (s : σ) :
    (course.under (.index place)).altered (visitor.within path) (.array (front ++ item :: back)) s =
      (course.altered (visitor.within (.index place :: path)) item s).map fun new =>
        .array (front ++ new :: back) := by
  subst hp
  simp only [under, altered, Altered.map, Visitor.edits_under, Visitor.final_under,
    Json.replaceEach_index, modify_middle]

/-! ### What stands in a course -/

theorem exists_of_mem_join {β : Type} {parts : List β} {f : β → Course} {visit : Visit}
    (h : visit ∈ (join (parts.map f)).visits) : ∃ part ∈ parts, visit ∈ (f part).visits := by
  have hmem := (prefix_join _).sublist.subset h
  rwa [List.flatMap_map, List.mem_flatMap] at hmem

theorem apart_under {segment : Segment} {course : Course}
    (h : course.visits.Pairwise fun visit other => visit.path.Apart other.path) :
    (course.under segment).visits.Pairwise fun visit other => visit.path.Apart other.path :=
  List.pairwise_map.2 (h.imp fun hapart => Path.apart_cons_iff.2 fun _ => hapart)

/-- Courses of parts that are reached by different steps keep apart. -/
theorem apart_join {β : Type} {parts : List β} {f : β → Course} {step : β → Segment}
    (hn : (parts.map step).Nodup)
    (hparts : ∀ part ∈ parts, (∀ visit ∈ (f part).visits, ∃ path, visit.path = step part :: path) ∧
      (f part).visits.Pairwise fun visit other => visit.path.Apart other.path) :
    (join (parts.map f)).visits.Pairwise fun visit other => visit.path.Apart other.path := by
  refine List.Pairwise.sublist (prefix_join _).sublist ?_
  rw [List.flatMap_map, List.pairwise_flatMap]
  refine ⟨fun part hp => (hparts part hp).2, (List.pairwise_map.1 hn).imp_of_mem ?_⟩
  intro part other hp ho hne visit hvisit visit' hvisit'
  obtain ⟨path, hpath⟩ := (hparts part hp).1 visit hvisit
  obtain ⟨path', hpath'⟩ := (hparts other ho).1 visit' hvisit'
  rw [hpath, hpath', Path.apart_cons_iff]
  exact fun he => absurd he hne

end Course

/-! ## The changing walk along the course -/

namespace Schema

variable {schema : Schema} {σ : Type} {visitor : Visitor σ} {path : Path}

/-- A walk changes a value as its visitor makes it along the course of the reading walk. -/
def InStep (schema : Schema) (visitor : Visitor σ) (value : Json) (d : Definition) : Prop :=
  ∀ (path : Path) (s : σ), schema.alter visitor value path d s =
    (schema.course value d).altered (visitor.within path) value s

theorem alterProperties_inStep {members : List (String × Json)} {properties : List (String × Definition)}
    (hparts : ∀ key part value, (key, part) ∈ properties → members.lookup key = some value →
      InStep schema visitor value part)
    (hk : (Entries.keys properties).Nodup) {current : List (String × Json)}
    (hn : (Entries.keys current).Nodup)
    (hl : ∀ key ∈ Entries.keys properties, current.lookup key = members.lookup key) (s : σ) :
    (alterProperties path (schema.memberAlterations visitor members) properties current s).map .object =
      (Course.join (properties.map (schema.propertyCourse members))).altered (visitor.within path)
        (.object current) s := by
  induction properties generalizing current s with
  | nil => rfl
  | cons property rest ih =>
      obtain ⟨key, part⟩ := property
      obtain ⟨hfresh, hkrest⟩ := List.nodup_cons.1 hk
      obtain ⟨hhere, hlrest⟩ := List.forall_mem_cons.1 hl
      have hrest := fun {current} => @ih (fun key part value hp =>
        hparts key part value (List.mem_cons_of_mem _ hp)) hkrest current
      rw [List.map_cons, Course.join, alterProperties, lookup_memberAlterations, propertyCourse]
      cases hvalue : members.lookup key with
      | none => exact hrest hn hlrest s
      | some value =>
          simp only [Option.map_some]
          rw [Course.altered_andThen, Course.altered_name hn (hhere.trans hvalue),
            ← hparts key part value (by simp) hvalue, Altered.map_proceed, Altered.proceed_map]
          congr 1
          funext new s
          have hkeys : Entries.keys (Json.setMember key new current) = Entries.keys current :=
            Json.keys_setMember key new current
          refine hrest (hkeys ▸ hn) (fun other ho => ?_) s
          -- The new value stands under a key that no later property has.
          have hne : other ≠ key := fun he => hfresh (he ▸ ho)
          rw [Json.lookup_setMember_of_ne hne, hlrest other ho]

theorem alterItems_inStep {element : Definition} {front items : List Json} {place : Nat}
    (hitems : ∀ item ∈ items, InStep schema visitor item element) (hp : place = front.length) (s : σ) :
    (alterItems path element place (schema.itemAlterations visitor items) s).map
        (fun changed => .array (front ++ changed)) =
      (Course.join ((items.zipIdx place).map fun item =>
        (schema.course item.1 element).under (.index item.2))).altered (visitor.within path)
          (.array (front ++ items)) s := by
  induction items generalizing front place s with
  | nil => rfl
  | cons item rest ih =>
      rw [List.zipIdx_cons, List.map_cons, Course.join, itemAlterations, alterItems,
        Course.altered_andThen, Course.altered_index hp, ← hitems item (by simp), Altered.map_proceed,
        Altered.proceed_map]
      have hwhole : (fun changed => Json.array (front ++ changed)) ∘
          (· :: (schema.itemAlterations visitor rest).map Prod.fst) =
            fun new => .array (front ++ new :: rest) := by
        funext new
        simp [itemAlterations_eq_map, Function.comp_def]
      rw [hwhole]
      congr 1
      funext new s
      have hplace : place + 1 = (front ++ [new]).length := by simp [hp]
      have hrest := ih (fun item hitem => hitems item (List.mem_cons_of_mem _ hitem)) hplace s
      simp only [List.append_assoc, List.singleton_append] at hrest
      exact hrest

theorem alterHere_inStep (visitor : Visitor σ) (path : Path) (d : Definition) (value : Json) (s : σ) :
    alterHere visitor path d value s =
      Course.altered { visits := visitsHere d value } (visitor.within path) value s := by
  unfold alterHere visitsHere
  cases d.isVisited with
  | false => rfl
  | true =>
      simp [Course.altered, Visitor.edits, Visitor.trace, Visitor.final, Visitor.within, Visit.below,
        Json.replaceEach, Json.replaceAt, Json.modifyAt]

theorem inStep (schema : Schema) (visitor : Visitor σ) {value : Json} {d : Definition}
    (hd : d.DistinctKeys) (hc : value.Canonical) : InStep schema visitor value d := by
  induction value, d using schema.walkInduction with
  | null d =>
      intro path s
      rw [alter_null, course_null]
      rfl
  | stuck d value e hn hr =>
      intro path s
      rw [alter_of_resolve_error hr hn, course_of_resolve_error hr hn]
      rfl
  | stops d target value hn hr ho =>
      intro path s
      rw [alter_of_not_opens hr ho hn, course_of_not_opens hr ho hn, alterHere_inStep]
  | list d element items hr ih =>
      have hlist : (Definition.list element).DistinctKeys := distinctKeys_of_resolve hd hr
      intro path s
      have hplace : 0 = ([] : List Json).length := rfl
      rw [alter_list hr, course_list hr]
      exact alterItems_inStep (fun item hitem => ih item hitem hlist (hc.item hitem)) hplace s
  | struct d properties nullable members hr ih =>
      obtain ⟨hkeys, hparts⟩ := distinctKeys_of_resolve hd hr
      intro path s
      rw [alter_struct hr, course_struct hr]
      exact alterProperties_inStep (fun key part value hp hl => ih key part value hp hl
        (Definition.distinctPropertyKeys_iff.1 hparts _ hp) (hc.member hl)) hkeys hc.nodup_keys
        (fun _ _ => rfl) s

/-! ## Where the course comes -/

theorem alterContent_eq_altered (visitor : Visitor σ) {content : Json} (hc : content.Canonical) (s : σ) :
    schema.alterContent visitor content s = (schema.contentCourse content).altered visitor content s := by
  unfold alterContent contentCourse
  cases hroot : schema.root with
  | error e => rfl
  | ok root => exact schema.inStep visitor (distinctKeys_of_root hroot) hc [] s

theorem mem_propertyCourse {members : List (String × Json)} {property : String × Definition}
    {visit : Visit} (h : visit ∈ (schema.propertyCourse members property).visits) :
    ∃ part below, members.lookup property.1 = some part ∧
      below ∈ (schema.course part property.2).visits ∧ visit = below.under (.name property.1) := by
  unfold propertyCourse at h
  split at h
  · cases h
  · next part hl =>
      obtain ⟨below, hbelow, rfl⟩ := List.mem_map.1 h
      exact ⟨part, below, hl, hbelow, rfl⟩

theorem partAt?_of_mem_course {value : Json} {d : Definition} {visit : Visit}
    (h : visit ∈ (schema.course value d).visits) : value.partAt? visit.path = some visit.value := by
  induction value, d using schema.walkInduction generalizing visit with
  | null d => simp at h
  | stuck d value e hn hr => simp [course_of_resolve_error hr hn] at h
  | stops d target value hn hr ho =>
      rw [course_of_not_opens hr ho hn, mem_visitsHere_iff] at h
      rw [h.2, Json.partAt?_nil]
  | list d element items hr ih =>
      rw [course_list hr] at h
      obtain ⟨item, hitem, hvisit⟩ := Course.exists_of_mem_join h
      obtain ⟨below, hbelow, rfl⟩ := List.mem_map.1 hvisit
      rw [Visit.under, Validator.partAt?_item (List.mk_mem_zipIdx_iff_getElem?.1 hitem)]
      exact ih item.1 (List.fst_mem_of_mem_zipIdx hitem) hbelow
  | struct d properties nullable members hr ih =>
      rw [course_struct hr] at h
      obtain ⟨property, hp, hvisit⟩ := Course.exists_of_mem_join h
      obtain ⟨part, below, hl, hbelow, rfl⟩ := mem_propertyCourse hvisit
      rw [Visit.under, Validator.partAt?_member hl]
      exact ih property.1 property.2 part hp hl hbelow

theorem apart_course {value : Json} {d : Definition} (hd : d.DistinctKeys) :
    (schema.course value d).visits.Pairwise fun visit other => visit.path.Apart other.path := by
  induction value, d using schema.walkInduction with
  | null d => simp
  | stuck d value e hn hr => simp [course_of_resolve_error hr hn]
  | stops d target value hn hr ho =>
      rw [course_of_not_opens hr ho hn]
      unfold visitsHere
      split <;> simp
  | list d element items hr ih =>
      have hlist : (Definition.list element).DistinctKeys := distinctKeys_of_resolve hd hr
      have hplaces : (items.zipIdx.map fun item => Segment.index item.2).Nodup := by
        have hsegments := (List.nodup_zipIdx_map_snd items).map (f := Segment.index) fun _ _ he =>
          Segment.index.inj he
        rwa [List.map_map] at hsegments
      rw [course_list hr]
      refine Course.apart_join hplaces fun item hitem => ⟨fun visit hvisit => ?_, ?_⟩
      · obtain ⟨below, -, rfl⟩ := List.mem_map.1 hvisit
        exact ⟨below.path, rfl⟩
      · exact Course.apart_under (ih item.1 (List.fst_mem_of_mem_zipIdx hitem) hlist)
  | struct d properties nullable members hr ih =>
      obtain ⟨hkeys, hparts⟩ := distinctKeys_of_resolve hd hr
      have hsteps : (properties.map fun property => Segment.name property.1).Nodup := by
        have hnames := List.Nodup.map (f := Segment.name) (fun _ _ he => Segment.name.inj he) hkeys
        rwa [Entries.keys, List.map_map] at hnames
      rw [course_struct hr]
      refine Course.apart_join hsteps fun property hp => ⟨fun visit hvisit => ?_, ?_⟩
      · obtain ⟨-, below, -, -, rfl⟩ := mem_propertyCourse hvisit
        exact ⟨below.path, rfl⟩
      · unfold propertyCourse
        cases hl : members.lookup property.1 with
        | none => exact .nil
        | some part => exact Course.apart_under (ih property.1 property.2 part hp hl
            (Definition.distinctPropertyKeys_iff.1 hparts property hp))

theorem partAt?_of_mem_contentCourse {content : Json} {visit : Visit}
    (h : visit ∈ (schema.contentCourse content).visits) :
    content.partAt? visit.path = some visit.value := by
  unfold contentCourse at h
  split at h
  · cases h
  · exact partAt?_of_mem_course h

theorem apart_contentCourse (schema : Schema) (content : Json) :
    (schema.contentCourse content).visits.Pairwise fun visit other => visit.path.Apart other.path := by
  unfold contentCourse
  cases hroot : schema.root with
  | error e => exact .nil
  | ok root => exact apart_course (distinctKeys_of_root hroot)

/-- The changing walk comes to the visits of the reading walk, each once and in order, sees the values that
the content had there, and ends as it does. What the visitor left is put into the content at these places,
which are apart from each other, and everything else stays. -/
theorem changing_in_step (schema : Schema) (visitor : Visitor σ) {content : Json}
    (hc : content.Canonical) (s : σ) :
    let course := schema.contentCourse content
    let altered := schema.alterContent visitor content s
    let edits := visitor.edits course.visits s
    (schema.visitContent content = course.result ∧
      schema.changeContent visitor content s = altered.result) ∧
    altered.error? = course.error? ∧
    altered.state = visitor.final course.visits s ∧
    (schema.alterContent visitor.noting content (s, [])).state = (altered.state, course.visits) ∧
    altered.value = content.replaceEach edits ∧
    (course.visits.Pairwise fun visit other => visit.path.Apart other.path) ∧
    (∀ visit ∈ course.visits, content.partAt? visit.path = some visit.value) ∧
    (∀ edit ∈ edits, altered.value.partAt? edit.1 = some edit.2) ∧
    ∀ path, (∀ visit ∈ course.visits, visit.path.Apart path) →
      altered.value.partAt? path = content.partAt? path := by
  intro course altered edits
  have haltered : altered = course.altered visitor content s := alterContent_eq_altered visitor hc s
  have hpaths : edits.map Prod.fst = course.visits.map Visit.path := visitor.map_fst_edits _ s
  have hapart : course.visits.Pairwise fun visit other => visit.path.Apart other.path :=
    schema.apart_contentCourse content
  have hholds : ∀ visit ∈ course.visits, content.partAt? visit.path = some visit.value :=
    fun visit => partAt?_of_mem_contentCourse
  have hvisit : ∀ edit ∈ edits, ∃ visit ∈ course.visits, visit.path = edit.1 := fun edit he =>
    List.mem_map.1 (hpaths ▸ List.mem_map_of_mem he)
  refine ⟨⟨schema.visitContent_eq_result content, schema.changeContent_eq_result visitor content s⟩,
    ?_, ?_, ?_, ?_, hapart, hholds, fun edit he => ?_, fun path hpath => ?_⟩
  · rw [haltered, Course.altered]
  · rw [haltered, Course.altered]
  · rw [alterContent_eq_altered _ hc, haltered, Course.altered, Course.altered, Visitor.final_noting,
      List.nil_append]
  · rw [haltered, Course.altered]
  · rw [haltered]
    refine Json.partAt?_replaceEach ?_ (fun edit he => ?_) he
    · have hmapped := List.pairwise_map.2 hapart
      rw [← hpaths] at hmapped
      exact List.pairwise_map.1 hmapped
    · obtain ⟨visit, hv, hpath⟩ := hvisit edit he
      exact ⟨visit.value, hpath ▸ hholds visit hv⟩
  · rw [haltered]
    refine Json.partAt?_replaceEach_of_apart (fun edit he => ?_) content
    obtain ⟨visit, hv, hedit⟩ := hvisit edit he
    exact hedit ▸ hpath visit hv

/-- Folders have an owner, scans, a twin of a type that is not declared, and a cover. -/
def folders : Schema :=
  Schema.ofTypes "Folder" [
    ("Folder", ⟨.struct [("owner", .documentRef none), ("scans", .list (.file none)),
        ("twin", .ref "Twin"), ("cover", .file none)] SortedMap.empty, by
      simp [Definition.DistinctKeys, Definition.DistinctPropertyKeys, Entries.keys]⟩)]

def folder : Json :=
  .object [("cover", .string "front"), ("owner", .string "ann"),
    ("scans", .array [.string "left", .string "right"]), ("twin", .bool true)]

def numbering : Visitor Nat :=
  fun visit n => (.array [Json.ofNat n, visit.value], n + 1)

/-- The twin ends both walks after the owner and the scans. The cover, which is declared after it, stays. -/
theorem changing_in_step_folder :
    let course := folders.contentCourse folder
    let altered := folders.alterContent numbering folder 7
    folder.Canonical ∧
    course.visits = [⟨.documentRef none, [.name "owner"], .string "ann"⟩,
      ⟨.file none, [.name "scans", .index 0], .string "left"⟩,
      ⟨.file none, [.name "scans", .index 1], .string "right"⟩] ∧
    altered.error? = some (.unknownRef "Twin") ∧ course.error? = some (.unknownRef "Twin") ∧
    altered.state = 10 ∧
    (folders.alterContent numbering.noting folder (7, [])).state = (10, course.visits) ∧
    altered.value = .object [("cover", .string "front"),
      ("owner", .array [Json.ofNat 7, .string "ann"]),
      ("scans", .array [.array [Json.ofNat 8, .string "left"], .array [Json.ofNat 9, .string "right"]]),
      ("twin", .bool true)] := by
  intro course altered
  have hc : folder.Canonical := by
    simp only [folder, Json.Canonical, Json.CanonicalMembers, Json.CanonicalItems, and_true]
    decide +kernel
  obtain ⟨-, herror, hstate, hnoted, hvalue, -⟩ := folders.changing_in_step numbering hc 7
  have hfinal : altered.state = 10 := hstate.trans rfl
  exact ⟨hc, rfl, herror.trans rfl, rfl, hfinal, hnoted.trans (congrArg (·, course.visits) hfinal),
    hvalue.trans rfl⟩

end Schema

end ContentStore
