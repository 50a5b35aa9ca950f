import ContentStore.Id.Mapping

/-!
# Texts of proto ids

A text spells at most one proto id, and it is that id's own text. No text is a proto id and the id of an
entity at once.
-/

namespace ContentStore

namespace ProtoId

/-! ## Digits -/

theorem digitChar_of_isDigit {c : Char} (h : c.isDigit = true) :
    c.toNat - '0'.toNat < 10 ∧ Nat.digitChar (c.toNat - '0'.toNat) = c := by
  have hc : 48 ≤ c.toNat ∧ c.toNat ≤ 57 := by
    simpa [Char.isDigit, UInt32.le_iff_toNat_le] using h
  have hzero : '0'.toNat = 48 := rfl
  have hlt : c.toNat - '0'.toNat < 10 := by omega
  refine ⟨hlt, Char.toNat_inj.1 ?_⟩
  rw [Nat.toNat_digitChar_of_lt_ten hlt]
  omega

/-- Digits after those of a positive number are the digits of the number that they write together. -/
theorem toDigits_append_digits {n : Nat} (hn : 0 < n) {cs : List Char}
    (h : ∀ c ∈ cs, c.isDigit = true) :
    Nat.toDigits 10 n ++ cs = Nat.toDigits 10 (Nat.ofDigitChars 10 cs n) := by
  induction cs generalizing n with
  | nil => simp
  | cons c cs ih =>
      obtain ⟨hlt, hchar⟩ := digitChar_of_isDigit (h c (by simp))
      have hnext := Nat.toDigits_append_toDigits (b := 10) (by decide) hn hlt
      rw [Nat.toDigits_of_lt_base hlt, hchar] at hnext
      rw [Nat.ofDigitChars_cons, ← ih (by omega) fun c hc => h c (by simp [hc]), ← hnext]
      simp

theorem toDigits_of_index? {digits : List Char} {index : Nat} (h : index? digits = some index) :
    Nat.toDigits 10 index = digits := by
  unfold index? at h
  split at h
  · next hcanonical =>
      cases h
      obtain ⟨hdigits, hhead⟩ := Bool.and_eq_true_iff.1 hcanonical
      rw [List.all_eq_true] at hdigits
      cases digits with
      | nil => cases hhead
      | cons c cs =>
          obtain ⟨hlt, hchar⟩ := digitChar_of_isDigit (hdigits c (by simp))
          by_cases hc : c = '0'
          · subst hc
            cases cs with
            | nil => rfl
            | cons => simp at hhead
          · have hpos : 0 < c.toNat - '0'.toNat := by
              refine Nat.pos_of_ne_zero fun hzero => hc ?_
              rw [← hchar, hzero]
              rfl
            rw [Nat.ofDigitChars_cons, Nat.mul_zero, Nat.zero_add,
              ← toDigits_append_digits hpos fun c hc => hdigits c (by simp [hc]),
              Nat.toDigits_of_lt_base hlt, hchar]
            rfl
  · cases h

theorem toDigits_head_ne_zero {n : Nat} (hn : 0 < n) {c : Char} {cs : List Char}
    (h : Nat.toDigits 10 n = c :: cs) : c ≠ '0' := by
  induction n using Nat.base_induction 10 (by decide) generalizing cs with
  | single n hlt =>
      rw [Nat.toDigits_of_lt_base hlt] at h
      obtain ⟨rfl, -⟩ := List.cons.inj h
      simp
      omega
  | digit n d hd hpos ih =>
      rw [← Nat.toDigits_append_toDigits (by decide) hpos hd] at h
      cases hdigits : Nat.toDigits 10 n with
      | nil => exact absurd hdigits Nat.toDigits_ne_nil
      | cons first rest =>
          rw [hdigits] at h
          obtain ⟨rfl, -⟩ := List.cons.inj h
          exact ih hpos hdigits

theorem index?_toDigits (index : Nat) : index? (Nat.toDigits 10 index) = some index := by
  have hcanonical : canonicalDigits (Nat.toDigits 10 index) = true := by
    unfold canonicalDigits
    rw [Bool.and_eq_true_iff, List.all_eq_true]
    refine ⟨fun c hc => Nat.isDigit_of_mem_toDigits (by decide) (by decide) hc, ?_⟩
    rcases Nat.eq_zero_or_pos index with rfl | hpos
    · rfl
    · cases hdigits : Nat.toDigits 10 index with
      | nil => exact absurd hdigits Nat.toDigits_ne_nil
      | cons c cs =>
          have hc := toDigits_head_ne_zero hpos hdigits
          split <;> simp_all
  rw [index?, hcanonical, if_pos rfl, Nat.ofDigitChars_ten_toDigits]

/-! ## Texts -/

theorem text_toList (p : ProtoId) :
    p.text.toList = start ++ (p.kind.name.toList ++ '_' :: Nat.toDigits 10 p.index) := by
  simp [text, textOf, indexChars]

@[simp] theorem ofText?_text (p : ProtoId) : ofText? p.text = some p := by
  have hsplit : Text.splitLast '_' (p.kind.name.toList ++ '_' :: Nat.toDigits 10 p.index) =
      some (p.kind.name.toList, Nat.toDigits 10 p.index) :=
    Text.splitLast_eq_some_iff.2 ⟨rfl, Nat.underscore_not_in_toDigits⟩
  simp only [ofText?, Text.dropStart_eq_some_iff.2 p.text_toList, hsplit, String.ofList_toList,
    Kind.ofName?_name, index?_toDigits, bind, Option.bind]
  rw [dif_pos ⟨p.positional, p.bounded⟩]

theorem text_injective {p q : ProtoId} (h : p.text = q.text) : p = q :=
  Option.some.inj (p.ofText?_text.symm.trans (h ▸ q.ofText?_text))

/-- A text spells a proto id exactly where it is the id's text. -/
theorem ofText?_eq_some_iff {text : String} {p : ProtoId} : ofText? text = some p ↔ text = p.text := by
  constructor
  · intro h
    simp only [ofText?, bind, Option.bind_eq_some_iff] at h
    obtain ⟨rest, hrest, ⟨name, digits⟩, hsplit, kind, hkind, index, hindex, hp⟩ := h
    rw [Text.dropStart_eq_some_iff] at hrest
    obtain ⟨rfl, -⟩ := Text.splitLast_eq_some_iff.1 hsplit
    split at hp
    · cases hp
      have hname : kind.name = String.ofList name := by simpa using List.find?_some hkind
      refine String.toList_inj.1 ?_
      rw [hrest, text_toList, hname, toDigits_of_index? hindex, String.toList_ofList]
    · cases hp
  · rintro rfl
    exact ofText?_text p

theorem isSome_ofText?_iff {text : String} :
    (ofText? text).isSome = true ↔ ∃ p : ProtoId, text = p.text := by
  simp only [Option.isSome_iff_exists, ofText?_eq_some_iff]

theorem ofKind?_eq_some_iff {kind : Kind} {text : String} {p : ProtoId} :
    ofKind? kind text = some p ↔ text = p.text ∧ p.kind = kind := by
  simp [ofKind?, Option.filter_eq_some_iff, ofText?_eq_some_iff]

/-- The texts that stand for something else: proto ids, and the sign for a schema's own collection. -/
def Placeholder (text : String) : Prop :=
  (∃ p : ProtoId, text = p.text) ∨ text = selfCollection

end ProtoId

namespace RealId

variable {kind : Kind}

theorem toList_text (id : RealId kind) :
    ∃ suffix, id.text.toList = kind.name.toList ++ '_' :: suffix := by
  obtain ⟨suffix, htext, -⟩ := shaped_iff.1 id.valid
  exact ⟨suffix, htext⟩

theorem text_ne_protoId (id : RealId kind) (p : ProtoId) : id.text ≠ p.text := by
  obtain ⟨suffix, htext⟩ := id.toList_text
  intro h
  rw [h, p.text_toList] at htext
  cases kind <;> simp [Kind.name, ProtoId.start] at htext

theorem text_ne_self (id : RealId kind) : id.text ≠ selfCollection := by
  obtain ⟨suffix, htext⟩ := id.toList_text
  intro h
  rw [h] at htext
  cases kind <;> simp [Kind.name, selfCollection] at htext

/-- The id of an entity stands for nothing else. -/
theorem not_placeholder (id : RealId kind) : ¬ ProtoId.Placeholder id.text := by
  rintro (⟨p, hp⟩ | hself)
  · exact id.text_ne_protoId p hp
  · exact id.text_ne_self hself

end RealId

end ContentStore
