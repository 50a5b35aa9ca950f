import ContentStore.Proofs.Id.Proto
import Mathlib.Data.List.Basic

/-!
# The namespaces of ids

A proto id has one spelling, and every other text is refused. The spellings of proto ids and the ids of
entities of the five kinds are six sets of texts of which no two meet.
-/

namespace ContentStore

namespace Kind

/-- The name of a kind ends at the first underscore after it. -/
theorem takeWhile_name (kind : Kind) (rest : List Char) :
    (kind.name.toList ++ '_' :: rest).takeWhile (· != '_') = kind.name.toList := by
  cases kind <;> rfl

theorem underscore_not_mem_name (kind : Kind) : '_' ∉ kind.name.toList := by
  cases kind <;> decide

end Kind

namespace ProtoId

def spelled (kind : Kind) (position : String) : String :=
  "Proto" ++ kind.name ++ "_" ++ position

theorem toList_spelled (kind : Kind) (position : String) :
    (spelled kind position).toList = start ++ (kind.name.toList ++ '_' :: position.toList) := by
  simp [spelled, start]

theorem text_eq_spelled (p : ProtoId) : p.text = spelled p.kind (toString p.index) := by
  refine String.toList_inj.1 ?_
  rw [p.text_toList, toList_spelled]
  simp only [Nat.toString_eq_repr, Nat.toList_repr]

theorem parse_eq_ok_iff {text : String} {p : ProtoId} : parse text = .ok p ↔ text = p.text := by
  rw [← ofText?_eq_some_iff, parse]
  cases ofText? text <;> simp

theorem parse_eq_error {text : String} (h : ∀ p : ProtoId, text ≠ p.text) :
    parse text = .error (.notPositional text) := by
  have hnone : ofText? text = none :=
    Option.eq_none_iff_forall_ne_some.2 fun p hp => h p (ofText?_eq_some_iff.1 hp)
  rw [parse, hnone]

/-- The text after the kind of a proto id is the position in digits. -/
theorem toList_position {kind : Kind} {position : String} {p : ProtoId}
    (h : spelled kind position = p.text) : position.toList = Nat.toDigits 10 p.index := by
  have hchars := congrArg String.toList h.symm
  rw [p.text_toList, toList_spelled, List.append_cancel_left_eq] at hchars
  have hparts := (List.append_cons_inj_of_notMem p.kind.underscore_not_mem_name
    Nat.underscore_not_in_toDigits).1 hchars
  exact hparts.2.2.symm

/-- Texts that write no position: with a character that is not one of the ten digits, as a sign or a digit
of another script, with a zero before other digits, or of a number that 64 bits do not hold. -/
inductive Unspellable : String → Prop where
  | notDigit {position : String} {c : Char} (hmem : c ∈ position.toList) (hc : c.isDigit = false) :
      Unspellable position
  | leadingZero {position : String} {c : Char} {cs : List Char} (h : position.toList = '0' :: c :: cs) :
      Unspellable position
  | large {index : Nat} (h : bound ≤ index) : Unspellable (toString index)

theorem Unspellable.spelled_ne_text {position : String} (h : Unspellable position) (kind : Kind)
    (p : ProtoId) : spelled kind position ≠ p.text := by
  intro htext
  have hdigits := toList_position htext
  cases h with
  | @notDigit _ c hmem hc =>
      rw [hdigits] at hmem
      have hdigit := Nat.isDigit_of_mem_toDigits (by decide) (by decide) hmem
      exact Bool.false_ne_true (hc.symm.trans hdigit)
  | leadingZero hzero =>
      rw [hzero] at hdigits
      rcases Nat.eq_zero_or_pos p.index with hindex | hpos
      · rw [hindex] at hdigits
        cases hdigits
      · exact toDigits_head_ne_zero hpos hdigits.symm rfl
  | @large index hlarge =>
      rw [Nat.toString_eq_repr, Nat.toList_repr] at hdigits
      have hindex : index = p.index := by
        have hread := congrArg (fun digits => Nat.ofDigitChars 10 digits 0) hdigits
        simpa using hread
      have := p.bounded
      omega

end ProtoId

namespace RealId

/-- The kind of an id is the text before its first underscore. -/
theorem kind_eq_of_shaped {kind other : Kind} {text : String} (h : shaped kind text = true)
    (hother : shaped other text = true) : kind = other := by
  obtain ⟨suffix, htext, -⟩ := shaped_iff.1 h
  obtain ⟨suffix', htext', -⟩ := shaped_iff.1 hother
  refine Kind.name_injective (String.toList_inj.1 ?_)
  rw [← kind.takeWhile_name suffix, ← other.takeWhile_name suffix', ← htext, ← htext']

end RealId

namespace ProtoId

/-- A text is read as a proto id exactly where it is that id's own text: the kind and the position in
decimal digits, where the positions are those that 64 bits hold, of every kind but files. So a written id is
read back, two ids have two texts, and every other text is refused by itself. No text is at once a proto id
and the id of an entity, or the id of two entities of different kinds. -/
theorem parse_exact :
    (∀ (text : String) (p : ProtoId), parse text = .ok p ↔ text = p.text) ∧
    (∀ p : ProtoId, p.text = spelled p.kind (toString p.index) ∧ parse p.text = .ok p ∧
      p.kind ∈ Kind.positionalKinds ∧ p.index < UInt64.size) ∧
    (∀ kind ∈ Kind.positionalKinds, ∀ index < UInt64.size, ∃ p : ProtoId, p.kind = kind ∧ p.index = index) ∧
    (∀ p q : ProtoId, p.text = q.text → p = q) ∧
    (∀ text, (∀ p : ProtoId, text ≠ p.text) → parse text = .error (.notPositional text)) ∧
    (∀ kind position, Unspellable position →
      parse (spelled kind position) = .error (.notPositional (spelled kind position))) ∧
    (∀ text kind, RealId.shaped kind text = true → parse text = .error (.notPositional text)) ∧
    (∀ text kind other, RealId.shaped kind text = true → RealId.shaped other text = true →
      kind = other) := by
  refine ⟨fun _ _ => parse_eq_ok_iff, fun p => ?_, fun kind hkind index hindex => ?_,
    fun p q => text_injective, fun text => parse_eq_error, fun kind position h => ?_,
    fun text kind h => ?_, fun text kind other => RealId.kind_eq_of_shaped⟩
  · exact ⟨p.text_eq_spelled, parse_eq_ok_iff.2 rfl, Kind.mem_positionalKinds.2 p.positional, p.bounded⟩
  · exact ⟨⟨kind, index, Kind.mem_positionalKinds.1 hkind, hindex⟩, rfl, rfl⟩
  · exact parse_eq_error (h.spelled_ne_text kind)
  · exact parse_eq_error (RealId.text_ne_protoId ⟨text, h⟩)

/-- The last position is read, and the one after it, a leading zero, a sign and an Arabic digit are not. -/
theorem parse_exact_at_bounds :
    (∃ p, parse "ProtoApp_18446744073709551615" = .ok p ∧ p.index = 18446744073709551615) ∧
    (∀ text ∈ ["ProtoApp_18446744073709551616", "ProtoApp_007", "ProtoApp_+1", "ProtoCollection_٣"],
      parse text = .error (.notPositional text)) := by
  obtain ⟨-, hread, hall, -, -, hrefused, -, -⟩ := parse_exact
  constructor
  · obtain ⟨p, hkind, hindex⟩ := hall .app (by decide) 18446744073709551615 (by decide)
    obtain ⟨htext, hparse, -, -⟩ := hread p
    rw [hkind, hindex] at htext
    have hwritten : p.text = "ProtoApp_18446744073709551615" := htext
    exact ⟨p, hwritten ▸ hparse, hindex⟩
  · intro text htext
    simp only [List.mem_cons, List.not_mem_nil, or_false] at htext
    rcases htext with rfl | rfl | rfl | rfl
    · exact hrefused .app (toString bound) (.large (Nat.le_refl bound))
    · exact hrefused .app "007" (.leadingZero rfl)
    · exact hrefused .app "+1" (.notDigit (c := '+') (by decide) rfl)
    · exact hrefused .collection "٣" (.notDigit (c := '٣') (by decide) rfl)

end ProtoId

end ContentStore
