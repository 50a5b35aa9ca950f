import ContentStore.Id.Error
import ContentStore.Text.Ascii

/-!
# Ids of stored entities

An id is the name of its kind, an underscore and a suffix: one or more ASCII letters, digits, hyphens
or underscores. Ids of different kinds have different types.
-/

namespace ContentStore

namespace RealId

def suffixChar (c : Char) : Bool :=
  c.isAlphanum || c = '-' || c = '_'

def validSuffix (cs : List Char) : Bool :=
  !cs.isEmpty && cs.all suffixChar

def shaped (kind : Kind) (text : String) : Bool :=
  match Text.dropStart (kind.name.toList ++ ['_']) text.toList with
  | some suffix => validSuffix suffix
  | none => false

theorem shaped_iff {kind : Kind} {text : String} :
    shaped kind text = true ↔
      ∃ suffix, text.toList = kind.name.toList ++ '_' :: suffix ∧ validSuffix suffix = true := by
  unfold shaped
  cases h : Text.dropStart (kind.name.toList ++ ['_']) text.toList with
  | some suffix =>
      have := Text.dropStart_eq_some_iff.1 h
      constructor
      · intro hv
        exact ⟨suffix, by simpa using this, hv⟩
      · rintro ⟨suffix', hs, hv⟩
        have : suffix = suffix' := by
          rw [this] at hs
          simpa using hs
        simpa [this] using hv
  | none =>
      constructor
      · intro hf
        exact absurd hf (by simp)
      · rintro ⟨suffix, hs, _⟩
        have : Text.dropStart (kind.name.toList ++ ['_']) text.toList = some suffix :=
          Text.dropStart_eq_some_iff.2 (by simpa using hs)
        rw [this] at h
        cases h

end RealId

/-- The id of an entity of a kind. -/
structure RealId (kind : Kind) where
  text : String
  valid : RealId.shaped kind text = true
  deriving DecidableEq

namespace RealId

variable {kind : Kind}

@[ext] theorem ext {a b : RealId kind} (h : a.text = b.text) : a = b := by
  cases a; cases b; cases h; rfl

def ofText? (kind : Kind) (text : String) : Option (RealId kind) :=
  if h : shaped kind text = true then some ⟨text, h⟩ else none

def parse (kind : Kind) (text : String) : Except IdError (RealId kind) :=
  match ofText? kind text with
  | some id => .ok id
  | none => .error (.notAnId kind text)

@[simp] theorem ofText?_text (id : RealId kind) : ofText? kind id.text = some id := by
  simp [ofText?, id.valid]

theorem ofText?_eq_some_iff {text : String} {id : RealId kind} :
    ofText? kind text = some id ↔ text = id.text := by
  constructor
  · intro h
    unfold ofText? at h
    split at h
    · cases h; rfl
    · cases h
  · rintro rfl
    exact ofText?_text id

theorem parse_eq_ok_iff {text : String} {id : RealId kind} :
    parse kind text = .ok id ↔ text = id.text := by
  unfold parse
  cases h : ofText? kind text with
  | some found =>
      have hf := ofText?_eq_some_iff.1 h
      constructor
      · intro he
        cases he
        exact hf
      · intro ht
        exact congrArg _ (RealId.ext (hf.symm.trans ht))
  | none =>
      constructor
      · intro he
        cases he
      · rintro rfl
        simp at h

end RealId

structure IdSuffix where
  chars : List Char
  valid : RealId.validSuffix chars = true
  deriving DecidableEq

def IdSuffix.toId (suffix : IdSuffix) (kind : Kind) : RealId kind where
  text := String.ofList (kind.name.toList ++ '_' :: suffix.chars)
  valid := RealId.shaped_iff.2 ⟨suffix.chars, by simp, suffix.valid⟩

abbrev CollectionCategoryId := RealId .collectionCategory
abbrev CollectionId := RealId .collection
abbrev AppId := RealId .app
abbrev DocumentId := RealId .document
abbrev FileId := RealId .file

end ContentStore
