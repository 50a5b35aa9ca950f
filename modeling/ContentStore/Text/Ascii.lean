/-!
# Plain operations on text

Texts are handled as lists of characters. Letter case means ASCII case throughout: a letter outside
ASCII equals only itself.
-/

namespace ContentStore.Text

def lowered (s : String) : String :=
  String.ofList (s.toList.map Char.toLower)

/-- Equality up to ASCII letter case. -/
def sameLetters (a b : String) : Bool :=
  a.toList.map Char.toLower == b.toList.map Char.toLower

@[simp] theorem sameLetters_self (a : String) : sameLetters a a = true := by
  simp [sameLetters]

def splitFirst (separator : Char) : List Char → Option (List Char × List Char)
  | [] => none
  | c :: rest =>
      if c = separator then some ([], rest)
      else (splitFirst separator rest).map fun (before, after) => (c :: before, after)

def splitLast (separator : Char) : List Char → Option (List Char × List Char)
  | [] => none
  | c :: rest =>
      match splitLast separator rest with
      | some (before, after) => some (c :: before, after)
      | none => if c = separator then some ([], rest) else none

theorem splitLast_eq_none_iff {separator : Char} {cs : List Char} :
    splitLast separator cs = none ↔ separator ∉ cs := by
  induction cs with
  | nil => simp [splitLast]
  | cons c rest ih =>
      unfold splitLast
      cases h : splitLast separator rest with
      | some parts => grind
      | none =>
          by_cases hc : c = separator
          · simp [hc]
          · have : separator ∉ rest := ih.1 h
            simp [hc, this, Ne.symm hc]

/-- Cutting at the last separator takes the text apart there, and no separator comes after. -/
theorem splitLast_eq_some_iff {separator : Char} {cs before after : List Char} :
    splitLast separator cs = some (before, after) ↔
      cs = before ++ separator :: after ∧ separator ∉ after := by
  induction cs generalizing before after with
  | nil => simp [splitLast]
  | cons c rest ih =>
      unfold splitLast
      cases h : splitLast separator rest with
      | some parts =>
          obtain ⟨b, a⟩ := parts
          have hp := ih.1 h
          cases before with
          | nil => grind
          | cons x xs => grind
      | none =>
          have hn := splitLast_eq_none_iff.1 h
          cases before with
          | nil => grind
          | cons x xs => grind

def dropStart (start : List Char) (cs : List Char) : Option (List Char) :=
  match start, cs with
  | [], cs => some cs
  | _ :: _, [] => none
  | s :: start, c :: cs => if s = c then dropStart start cs else none

theorem dropStart_eq_some_iff {start cs rest : List Char} :
    dropStart start cs = some rest ↔ cs = start ++ rest := by
  induction start generalizing cs with
  | nil => simp [dropStart, eq_comm]
  | cons s start ih =>
      cases cs with
      | nil => simp [dropStart]
      | cons c cs => by_cases h : s = c <;> grind [dropStart]

def dropEnd (ending : List Char) (cs : List Char) : Option (List Char) :=
  (dropStart ending.reverse cs.reverse).map List.reverse

theorem dropEnd_eq_some_iff {ending cs rest : List Char} :
    dropEnd ending cs = some rest ↔ cs = rest ++ ending := by
  unfold dropEnd
  constructor
  · intro h
    obtain ⟨r, hr, rfl⟩ := Option.map_eq_some_iff.1 h
    have := dropStart_eq_some_iff.1 hr
    simpa using congrArg List.reverse this
  · rintro rfl
    rw [List.reverse_append, dropStart_eq_some_iff.2 rfl]
    simp

end ContentStore.Text
