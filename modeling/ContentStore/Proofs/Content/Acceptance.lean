import ContentStore.Content.FileValue
import ContentStore.Proofs.Values
import Mathlib

/-!
# What files are accepted

Whether a file is accepted depends on its name and its media type up to the case of ASCII letters, and on
the patterns and extensions of the schema up to the same. More patterns and more extensions accept more
files, and a pattern for a whole family of types accepts what a pattern for one of its types does.
-/

namespace ContentStore

/-! ## Letter case -/

namespace Text

/-- A text with the case of any ASCII letters changed. -/
def Recased (s t : String) : Prop :=
  List.Forall₂ (fun c d : Char => d = c ∨ d = c.toLower ∨ d = c.toUpper) s.toList t.toList

theorem map_toLower_of_forall₂ {cs ds : List Char}
    (h : List.Forall₂ (fun c d : Char => d = c ∨ d = c.toLower ∨ d = c.toUpper) cs ds) :
    cs.map Char.toLower = ds.map Char.toLower := by
  induction h with
  | nil => rfl
  | cons hchar _ ih =>
      rw [List.map_cons, List.map_cons, ih]
      rcases hchar with rfl | rfl | rfl
      · rfl
      · rw [Char.toLower_toLower_eq_toLower]
      · rw [Char.toLower_toUpper_eq_toLower]

theorem Recased.lowered_eq {s t : String} (h : Recased s t) : lowered s = lowered t :=
  congrArg String.ofList (map_toLower_of_forall₂ h)

@[simp] theorem toList_lowered (s : String) : (lowered s).toList = s.toList.map Char.toLower :=
  String.toList_ofList

theorem map_toLower_map_toLower (cs : List Char) :
    (cs.map Char.toLower).map Char.toLower = cs.map Char.toLower := by
  simp [Function.comp_def, Char.toLower_toLower_eq_toLower]

theorem sameLetters_lowered (a b : String) : sameLetters (lowered a) (lowered b) = sameLetters a b := by
  simp only [sameLetters, toList_lowered, map_toLower_map_toLower]

theorem toLower_of_not_isAlpha {c : Char} (h : c.isAlpha = false) : c.toLower = c := by
  refine Char.toLower_eq_of_not_isUpper fun hupper => ?_
  rw [Char.isAlpha, hupper, Bool.true_or] at h
  cases h

/-- Only a character that is no letter itself becomes one by a change of case. -/
theorem toLower_eq_iff {c separator : Char} (h : separator.isAlpha = false) :
    c.toLower = separator ↔ c = separator := by
  constructor
  · rintro rfl
    rw [Char.isAlpha_toLower_eq_isAlpha] at h
    exact (toLower_of_not_isAlpha h).symm
  · rintro rfl
    exact toLower_of_not_isAlpha h

theorem map_toLower_eq_iff {cs separators : List Char} (h : separators.any Char.isAlpha = false) :
    cs.map Char.toLower = separators ↔ cs = separators := by
  induction cs generalizing separators with
  | nil => rfl
  | cons c cs ih =>
      cases separators with
      | nil => simp
      | cons separator separators =>
          obtain ⟨hfirst, hrest⟩ := Bool.or_eq_false_iff.1 h
          simp only [List.map_cons, List.cons.injEq, toLower_eq_iff hfirst, ih hrest]

theorem splitFirst_map_toLower {separator : Char} (h : separator.isAlpha = false) (cs : List Char) :
    splitFirst separator (cs.map Char.toLower) =
      (splitFirst separator cs).map fun parts => (parts.1.map Char.toLower, parts.2.map Char.toLower) := by
  induction cs with
  | nil => rfl
  | cons c cs ih =>
      simp only [List.map_cons, splitFirst, toLower_eq_iff h, ih]
      split <;> simp [Function.comp_def]

theorem splitFirst_append {separator : Char} {before : List Char} (h : separator ∉ before)
    (after : List Char) : splitFirst separator (before ++ separator :: after) = some (before, after) := by
  induction before with
  | nil => simp [splitFirst]
  | cons c before ih =>
      rw [List.mem_cons, not_or] at h
      simp [splitFirst, Ne.symm h.1, ih h.2]

theorem splitLast_map_toLower {separator : Char} (h : separator.isAlpha = false) (cs : List Char) :
    splitLast separator (cs.map Char.toLower) =
      (splitLast separator cs).map fun parts => (parts.1.map Char.toLower, parts.2.map Char.toLower) := by
  induction cs with
  | nil => rfl
  | cons c cs ih =>
      simp only [List.map_cons, splitLast, toLower_eq_iff h, ih]
      cases splitLast separator cs with
      | some parts => rfl
      | none => simp only [Option.map_none]; split <;> rfl

theorem dropStart_map_toLower {start : List Char} (h : start.any Char.isAlpha = false) (cs : List Char) :
    dropStart start (cs.map Char.toLower) = (dropStart start cs).map (List.map Char.toLower) := by
  induction start generalizing cs with
  | nil => rfl
  | cons s start ih =>
      obtain ⟨hfirst, hrest⟩ := Bool.or_eq_false_iff.1 h
      cases cs with
      | nil => rfl
      | cons c cs =>
          simp only [List.map_cons, dropStart, eq_comm (a := s), toLower_eq_iff hfirst, ih hrest]
          split <;> rfl

theorem dropEnd_map_toLower {ending : List Char} (h : ending.any Char.isAlpha = false) (cs : List Char) :
    dropEnd ending (cs.map Char.toLower) = (dropEnd ending cs).map (List.map Char.toLower) := by
  have hreverse : ending.reverse.any Char.isAlpha = false := by rw [List.any_reverse, h]
  rw [dropEnd, dropEnd, ← List.map_reverse, dropStart_map_toLower hreverse]
  simp [Function.comp_def]

end Text

/-! ## Files up to letter case -/

theorem fileExtension?_lowered (name : String) :
    fileExtension? (Text.lowered name) = fileExtension? name := by
  rw [fileExtension?, fileExtension?, Text.toList_lowered, Text.splitLast_map_toLower rfl]
  cases Text.splitLast '.' name.toList with
  | none => rfl
  | some parts =>
      obtain ⟨_ | ⟨c, stem⟩, _ | ⟨d, ext⟩⟩ := parts
      · rfl
      · rfl
      · rfl
      · simp only [Option.map_some, List.map_cons, Char.toLower_toLower_eq_toLower,
          Text.map_toLower_map_toLower]

theorem mimeMatches_lowered (pattern mimeType : String) :
    mimeMatches (Text.lowered pattern) (Text.lowered mimeType) = mimeMatches pattern mimeType := by
  have hany : (Text.lowered pattern == "*/*") = (pattern == "*/*") := by
    rw [Bool.eq_iff_iff, beq_iff_eq, beq_iff_eq, ← String.toList_inj, ← String.toList_inj,
      Text.toList_lowered]
    exact Text.map_toLower_eq_iff rfl
  rw [mimeMatches, mimeMatches, hany, Text.sameLetters_lowered, Text.toList_lowered, Text.toList_lowered,
    Text.dropEnd_map_toLower rfl, Text.splitFirst_map_toLower rfl]
  cases Text.dropEnd ['/', '*'] pattern.toList with
  | none => rfl
  | some family =>
      cases Text.splitFirst '/' mimeType.toList with
      | none => rfl
      | some parts =>
          simp only [Option.map_some, Text.sameLetters, String.toList_ofList, Text.map_toLower_map_toLower]

section Recased

variable {s t pattern pattern' name name' mimeType mimeType' : String}

theorem sameLetters_of_recased (h : Text.Recased s t) (ext : String) :
    Text.sameLetters t ext = Text.sameLetters s ext := by
  rw [Text.sameLetters, Text.sameLetters, Text.map_toLower_of_forall₂ h]

theorem mimeMatches_of_recased (hp : Text.Recased pattern pattern') (hm : Text.Recased mimeType mimeType') :
    mimeMatches pattern' mimeType' = mimeMatches pattern mimeType := by
  rw [← mimeMatches_lowered pattern' mimeType', ← hp.lowered_eq, ← hm.lowered_eq, mimeMatches_lowered]

theorem fileExtension?_of_recased (h : Text.Recased name name') :
    fileExtension? name' = fileExtension? name := by
  rw [← fileExtension?_lowered name', ← h.lowered_eq, fileExtension?_lowered]

end Recased

def entryAccepts (mimeType ext : String) (entry : String × List String) : Bool :=
  mimeMatches entry.1 mimeType && entry.2.any fun allowed => Text.sameLetters allowed ext

/-- A pattern and its extensions with the case of any ASCII letters changed. -/
structure RecasedEntry (entry changed : String × List String) : Prop where
  pattern : Text.Recased entry.1 changed.1
  extensions : List.Forall₂ Text.Recased entry.2 changed.2

theorem accepts_eq (accept : SortedMap String (List String)) (name mimeType : String) :
    accepts accept name mimeType =
      (fileExtension? name).any fun ext => accept.entries.any (entryAccepts mimeType ext) := by
  rw [accepts]
  cases fileExtension? name <;> rfl

theorem entryAccepts_of_recased {mimeType mimeType' ext : String} {entry changed : String × List String}
    (h : RecasedEntry entry changed) (hm : Text.Recased mimeType mimeType') :
    entryAccepts mimeType' ext changed = entryAccepts mimeType ext entry := by
  rw [entryAccepts, entryAccepts, mimeMatches_of_recased h.pattern hm,
    any_eq_of_forall₂ h.extensions fun _ _ hallowed => sameLetters_of_recased hallowed ext]

/-- Letter case does not count: not in patterns, extensions, names and not in media types. -/
theorem accepts_of_recased {accept : SortedMap String (List String)} {changed : List (String × List String)}
    {name name' mimeType mimeType' : String} (h : List.Forall₂ RecasedEntry accept.entries changed)
    (hn : (changed.map Prod.fst).Nodup) (hname : Text.Recased name name')
    (hm : Text.Recased mimeType mimeType') :
    accepts (SortedMap.ofList changed) name' mimeType' = accepts accept name mimeType := by
  rw [accepts_eq, accepts_eq, fileExtension?_of_recased hname]
  congr 1
  funext ext
  have hany : (SortedMap.ofList changed).entries.any (entryAccepts mimeType' ext) =
      changed.any (entryAccepts mimeType' ext) := by
    rw [Bool.eq_iff_iff, List.any_eq_true, List.any_eq_true]
    simp only [SortedMap.mem_ofList_iff hn]
  rw [hany]
  exact any_eq_of_forall₂ h fun _ _ hentry => entryAccepts_of_recased hentry hm

/-! ## More patterns and more extensions -/

/-- The map after one pattern, or one extension of a pattern, is added. -/
inductive Widens (accept : SortedMap String (List String)) : SortedMap String (List String) → Prop
  | pattern {pattern : String} {extensions : List String} (hnew : accept.get? pattern = none) :
      Widens accept (accept.insert pattern extensions)
  | extension {pattern allowed : String} {before after : List String}
      (hold : accept.get? pattern = some (before ++ after)) :
      Widens accept (accept.insert pattern (before ++ allowed :: after))

/-- Every entry of a map is still there in a wider one, perhaps with more extensions. -/
theorem Widens.entry {accept wider : SortedMap String (List String)} (h : Widens accept wider)
    {pattern : String} {extensions : List String} (he : (pattern, extensions) ∈ accept.entries) :
    ∃ more, (pattern, more) ∈ wider.entries ∧ extensions ⊆ more := by
  rw [SortedMap.mem_entries_iff] at he
  simp only [SortedMap.mem_entries_iff]
  cases h with
  | @pattern new _ hnew =>
      have hne : pattern ≠ new := by
        rintro rfl
        rw [hnew] at he
        cases he
      exact ⟨extensions, by rw [SortedMap.get?_insert_of_ne _ hne, he], List.Subset.refl _⟩
  | @extension old allowed before after hold =>
      by_cases heq : pattern = old
      · subst heq
        rw [hold, Option.some.injEq] at he
        subst he
        have hmore := (List.sublist_cons_self allowed after).append_left before
        exact ⟨_, SortedMap.get?_insert_self _ _ _, hmore.subset⟩
      · exact ⟨extensions, by rw [SortedMap.get?_insert_of_ne _ heq, he], List.Subset.refl _⟩

theorem entryAccepts_mono {mimeType ext pattern : String} {extensions more : List String}
    (hmore : extensions ⊆ more) (h : entryAccepts mimeType ext (pattern, extensions) = true) :
    entryAccepts mimeType ext (pattern, more) = true := by
  rw [entryAccepts, Bool.and_eq_true, List.any_eq_true] at h ⊢
  obtain ⟨hmatches, allowed, hallowed, hsame⟩ := h
  exact ⟨hmatches, allowed, hmore hallowed, hsame⟩

theorem accepts_iff_entry {accept : SortedMap String (List String)} {name mimeType : String} :
    accepts accept name mimeType = true ↔
      ∃ ext ∈ fileExtension? name, ∃ entry ∈ accept.entries, entryAccepts mimeType ext entry = true := by
  rw [accepts_eq, Option.any_eq_true]
  simp only [List.any_eq_true, Option.mem_def]

theorem accepts_of_widens {accept wider : SortedMap String (List String)} {name mimeType : String}
    (h : Widens accept wider) (ha : accepts accept name mimeType = true) :
    accepts wider name mimeType = true := by
  obtain ⟨ext, hext, ⟨pattern, extensions⟩, hentry, haccepts⟩ := accepts_iff_entry.1 ha
  obtain ⟨more, hmem, hmore⟩ := h.entry hentry
  exact accepts_iff_entry.2 ⟨ext, hext, _, hmem, entryAccepts_mono hmore haccepts⟩

/-- What is accepted stays so however many patterns and extensions are added. -/
theorem accepts_of_widened {accept wider : SortedMap String (List String)} {name mimeType : String}
    (h : Relation.ReflTransGen Widens accept wider) (ha : accepts accept name mimeType = true) :
    accepts wider name mimeType = true := by
  induction h with
  | refl => exact ha
  | tail _ hstep ih => exact accepts_of_widens hstep ih

/-! ## Names and families of types -/

/-- An accepted file has an extension after its last point, and something before it. -/
theorem exists_ext_of_accepts {accept : SortedMap String (List String)} {name mimeType : String}
    (h : accepts accept name mimeType = true) :
    ∃ stem ext, name.toList = stem ++ '.' :: ext ∧ '.' ∉ ext ∧ stem ≠ [] ∧ ext ≠ [] := by
  obtain ⟨ext, hext, -⟩ := accepts_iff_entry.1 h
  rw [fileExtension?, Option.mem_def] at hext
  split at hext
  · next c stem d rest hsplit =>
      obtain ⟨hname, hlast⟩ := Text.splitLast_eq_some_iff.1 hsplit
      exact ⟨c :: stem, d :: rest, hname, hlast, List.cons_ne_nil _ _, List.cons_ne_nil _ _⟩
  · cases hext

/-- The pattern for a family of types, and that for any type, match the types of the family. -/
theorem mimeMatches_family {family subtype wide : String} (h : '/' ∉ family.toList)
    (hwide : wide = family ++ "/*" ∨ wide = "*/*") : mimeMatches wide (family ++ "/" ++ subtype) = true := by
  rcases hwide with rfl | rfl
  · have hpattern : Text.dropEnd ['/', '*'] (family ++ "/*").toList = some family.toList :=
      Text.dropEnd_eq_some_iff.2 (by simp)
    have htype : Text.splitFirst '/' (family ++ "/" ++ subtype).toList =
        some (family.toList, subtype.toList) := by
      rw [← Text.splitFirst_append h]
      simp
    rw [mimeMatches, hpattern, htype]
    simp only [Text.sameLetters_self, Bool.or_true]
  · rfl

/-- A file that an entry accepts is accepted with the pattern for the whole family of its type, or for any
type, in place of the pattern of the entry. -/
theorem accepts_of_family {family subtype name pattern wide : String} {extensions : List String}
    {replaced : SortedMap String (List String)} (h : '/' ∉ family.toList)
    (ha : accepts (SortedMap.ofList [(pattern, extensions)]) name (family ++ "/" ++ subtype) = true)
    (hwide : wide = family ++ "/*" ∨ wide = "*/*") (hmem : (wide, extensions) ∈ replaced.entries) :
    accepts replaced name (family ++ "/" ++ subtype) = true := by
  obtain ⟨ext, hext, entry, hentry, haccepts⟩ := accepts_iff_entry.1 ha
  obtain rfl : entry = (pattern, extensions) := List.mem_singleton.1 (SortedMap.mem_of_mem_ofList hentry)
  rw [entryAccepts, Bool.and_eq_true] at haccepts
  refine accepts_iff_entry.2 ⟨ext, hext, _, hmem, ?_⟩
  rw [entryAccepts, mimeMatches_family h hwide, haccepts.2, Bool.and_true]

/-! ## Laws of acceptance -/

/-- Acceptance does not depend on letter case, only grows with patterns and extensions, needs an extension
after the last point of the name and something before it, and carries over to the patterns for the family of
the type and for any type. -/
theorem accepts_caseBlind_monotone (accept : SortedMap String (List String)) (name mimeType : String) :
    (∀ (changed : List (String × List String)) (name' mimeType' : String),
      List.Forall₂ RecasedEntry accept.entries changed → (changed.map Prod.fst).Nodup →
      Text.Recased name name' → Text.Recased mimeType mimeType' →
        accepts (SortedMap.ofList changed) name' mimeType' = accepts accept name mimeType) ∧
    (accepts accept name mimeType = true →
      (∀ wider, Relation.ReflTransGen Widens accept wider → accepts wider name mimeType = true) ∧
      (∃ stem ext, name.toList = stem ++ '.' :: ext ∧ '.' ∉ ext ∧ stem ≠ [] ∧ ext ≠ []) ∧
      ∃ entry ∈ accept.entries, accepts (SortedMap.ofList [entry]) name mimeType = true) ∧
    (∀ (family subtype : String) (entry : String × List String) (wide : String)
      (replaced : SortedMap String (List String)),
      mimeType = family ++ "/" ++ subtype → '/' ∉ family.toList →
      accepts (SortedMap.ofList [entry]) name mimeType = true →
      wide = family ++ "/*" ∨ wide = "*/*" → (wide, entry.2) ∈ replaced.entries →
        accepts replaced name mimeType = true) := by
  refine ⟨fun changed name' mimeType' h hn hname hm => accepts_of_recased h hn hname hm, fun ha =>
    ⟨fun wider h => accepts_of_widened h ha, exists_ext_of_accepts ha, ?_⟩, ?_⟩
  · obtain ⟨ext, hext, entry, hentry, haccepts⟩ := accepts_iff_entry.1 ha
    exact ⟨entry, hentry, accepts_iff_entry.2 ⟨ext, hext, entry, List.mem_singleton_self entry, haccepts⟩⟩
  · rintro family subtype entry wide replaced rfl hslash ha hwide hmem
    exact accepts_of_family hslash ha hwide hmem

/-- A photo is accepted in other letter case, with more entries, and by the pattern for all images. -/
theorem accepts_caseBlind_monotone_photo :
    let accept := SortedMap.ofList [("IMAGE/jpeg", [".Jpg"])]
    accepts accept "Photo.Final.JPG" "image/JPEG" = true ∧
      accepts (SortedMap.ofList [("image/Jpeg", [".jpG"])]) "pHOTO.fINAL.jpg" "Image/jpeg" = true ∧
      accepts ((accept.insert "text/plain" []).insert "IMAGE/jpeg" [".png", ".Jpg"]) "Photo.Final.JPG"
        "image/JPEG" = true ∧
      accepts (SortedMap.ofList [("image/*", [".Jpg"])]) "Photo.Final.JPG" "image/JPEG" = true := by
  intro accept
  have hlaws := accepts_caseBlind_monotone accept "Photo.Final.JPG" "image/JPEG"
  have haccepts : accepts accept "Photo.Final.JPG" "image/JPEG" = true := by decide +kernel
  have hchanged : List.Forall₂ RecasedEntry accept.entries [("image/Jpeg", [".jpG"])] :=
    .cons ⟨by simp [Text.Recased], .cons (by simp [Text.Recased]) .nil⟩ .nil
  refine ⟨haccepts, ?_, ?_, ?_⟩
  · have hname : Text.Recased "Photo.Final.JPG" "pHOTO.fINAL.jpg" := by simp [Text.Recased]
    have hm : Text.Recased "image/JPEG" "Image/jpeg" := by simp [Text.Recased]
    rw [hlaws.1 _ _ _ hchanged (by simp) hname hm, haccepts]
  · have hpattern : Widens accept (accept.insert "text/plain" []) := .pattern (by decide +kernel)
    have hextension : Widens (accept.insert "text/plain" [])
        ((accept.insert "text/plain" []).insert "IMAGE/jpeg" [".png", ".Jpg"]) :=
      @Widens.extension _ _ ".png" [] [".Jpg"] (by decide +kernel)
    exact (hlaws.2.1 haccepts).1 _ (.tail (.single hpattern) hextension)
  · exact hlaws.2.2 "image" "JPEG" _ "image/*" _ rfl (by decide +kernel) haccepts (.inl rfl)
      (List.mem_singleton_self _)

end ContentStore
