import CallProbe.Proofs.Outcome
import CallProbe.Text.ModifiedUtf8

/-!
# Texts are read back

A character is spelled by one unit or by a pair of surrogates, a unit by a form of one to three
bytes. The readers take what a writer has put in front of them and go on with the rest, so both
round trips are inductions over the characters and over the units of a text.
-/

namespace CallProbe

/-! ## Units of characters -/

namespace Utf16

theorem isLeading_eq_true_iff {unit : UInt16} :
    isLeading unit = true ↔ 0xD800 ≤ unit.toNat ∧ unit.toNat ≤ 0xDBFF := by
  simp [isLeading]

theorem isTrailing_eq_true_iff {unit : UInt16} :
    isTrailing unit = true ↔ 0xDC00 ≤ unit.toNat ∧ unit.toNat ≤ 0xDFFF := by
  simp [isTrailing]

/-- A character is no surrogate, and there is a last one. -/
theorem toNat_char_bounds (c : Char) :
    c.toNat < 0xD800 ∨ 0xDFFF < c.toNat ∧ c.toNat < 0x110000 := by
  have hvalid := c.valid
  simpa [UInt32.isValidChar, Nat.isValidChar] using hvalid

/-- A character is read from the units that spell it. -/
theorem charsAfter_ofChar (found : List Char) (c : Char) (rest : List UInt16) :
    charsAfter found (ofChar c ++ rest) = charsAfter (c :: found) rest := by
  have hbounds := toNat_char_bounds c
  unfold ofChar
  dsimp only
  split
  · rename_i hshort
    have hunit : (UInt16.ofNat c.toNat).toNat = c.toNat := UInt16.toNat_ofNat_of_lt' hshort
    have hleading : ¬ isLeading (UInt16.ofNat c.toNat) = true := by
      rw [isLeading_eq_true_iff, hunit]
      omega
    have htrailing : ¬ isTrailing (UInt16.ofNat c.toNat) = true := by
      rw [isTrailing_eq_true_iff, hunit]
      omega
    rw [List.singleton_append, charsAfter.eq_def]
    dsimp only
    rw [if_neg hleading, if_neg htrailing, hunit, Char.ofNat_toNat]
  · rename_i hlong
    have hhigh : (UInt16.ofNat (0xD800 + (c.toNat - 0x10000) / 0x400)).toNat =
        0xD800 + (c.toNat - 0x10000) / 0x400 :=
      UInt16.toNat_ofNat_of_lt' (show _ < 65536 by omega)
    have hlow : (UInt16.ofNat (0xDC00 + (c.toNat - 0x10000) % 0x400)).toNat =
        0xDC00 + (c.toNat - 0x10000) % 0x400 :=
      UInt16.toNat_ofNat_of_lt' (show _ < 65536 by omega)
    have hleading : isLeading (UInt16.ofNat (0xD800 + (c.toNat - 0x10000) / 0x400)) = true := by
      rw [isLeading_eq_true_iff, hhigh]
      omega
    have htrailing : isTrailing (UInt16.ofNat (0xDC00 + (c.toNat - 0x10000) % 0x400)) = true := by
      rw [isTrailing_eq_true_iff, hlow]
      omega
    have hpair : pair (UInt16.ofNat (0xD800 + (c.toNat - 0x10000) / 0x400))
        (UInt16.ofNat (0xDC00 + (c.toNat - 0x10000) % 0x400)) = c := by
      rw [pair, hhigh, hlow]
      have hsum : 0x10000 + (0xD800 + (c.toNat - 0x10000) / 0x400 - 0xD800) * 0x400 +
          (0xDC00 + (c.toNat - 0x10000) % 0x400 - 0xDC00) = c.toNat := by omega
      rw [hsum, Char.ofNat_toNat]
    simp only [List.cons_append, List.nil_append, charsAfter, hleading, htrailing, hpair, if_true]

/-- The units of a text spell it. -/
theorem toString?_ofString (s : String) : toString? (ofString s) = some s := by
  have hchars (found chars : List Char) :
      charsAfter found (chars.flatMap ofChar) = some (found.reverse ++ chars) := by
    induction chars generalizing found with
    | nil => simp [charsAfter]
    | cons c chars ih => rw [List.flatMap_cons, charsAfter_ofChar, ih]; simp
  rw [toString?, ofString, hchars]
  simp

/-! Units that were read are the units of what was found. -/

theorem toNat_ofNat_of_valid {n : Nat} (h : n.isValidChar) : (Char.ofNat n).toNat = n := by
  rw [Char.ofNat, dif_pos h]
  rfl

/-- A unit that is no surrogate is the one unit of a character. -/
theorem ofChar_ofNat {unit : UInt16} (hleading : ¬ isLeading unit = true)
    (htrailing : ¬ isTrailing unit = true) : ofChar (Char.ofNat unit.toNat) = [unit] := by
  have hlt : unit.toNat < 65536 := unit.toNat_lt
  rw [isLeading_eq_true_iff] at hleading
  rw [isTrailing_eq_true_iff] at htrailing
  have hvalid : unit.toNat.isValidChar := by
    unfold Nat.isValidChar
    omega
  rw [ofChar, toNat_ofNat_of_valid hvalid, if_pos hlt, UInt16.ofNat_toNat]

/-- A pair of surrogates is the two units of a character. -/
theorem ofChar_pair {leading trailing : UInt16} (hleading : isLeading leading = true)
    (htrailing : isTrailing trailing = true) :
    ofChar (pair leading trailing) = [leading, trailing] := by
  rw [isLeading_eq_true_iff] at hleading
  rw [isTrailing_eq_true_iff] at htrailing
  have hvalid : (0x10000 + (leading.toNat - 0xD800) * 0x400 +
      (trailing.toNat - 0xDC00)).isValidChar := by
    unfold Nat.isValidChar
    omega
  have hhigh : 0xD800 + ((leading.toNat - 0xD800) * 0x400 + (trailing.toNat - 0xDC00)) / 0x400 =
      leading.toNat := by omega
  have hlow : 0xDC00 + ((leading.toNat - 0xD800) * 0x400 + (trailing.toNat - 0xDC00)) % 0x400 =
      trailing.toNat := by omega
  rw [ofChar, pair, toNat_ofNat_of_valid hvalid, if_neg (by omega), Nat.add_assoc,
    Nat.add_sub_cancel_left, hhigh, hlow, UInt16.ofNat_toNat, UInt16.ofNat_toNat]

theorem flatMap_ofChar_of_charsAfter {found chars : List Char} {units : List UInt16}
    (h : charsAfter found units = some chars) :
    chars.flatMap ofChar = found.reverse.flatMap ofChar ++ units := by
  fun_induction charsAfter found units with
  | case1 found =>
      cases h
      rw [List.append_nil]
  | case2 => cases h
  | case3 found leading hleading trailing rest htrailing ih =>
      rw [ih h, List.reverse_cons, List.flatMap_append, List.flatMap_singleton,
        ofChar_pair hleading htrailing, List.append_assoc]
      rfl
  | case4 => cases h
  | case5 => cases h
  | case6 found unit rest hleading htrailing ih =>
      rw [ih h, List.reverse_cons, List.flatMap_append, List.flatMap_singleton,
        ofChar_ofNat hleading htrailing, List.append_assoc]
      rfl

/-- The units of a text are the only ones that spell it. -/
theorem toString?_eq_some_iff {units : List UInt16} {s : String} :
    toString? units = some s ↔ units = ofString s := by
  constructor
  · intro h
    rcases Option.map_eq_some_iff.1 h with ⟨chars, hchars, rfl⟩
    have hunits := flatMap_ofChar_of_charsAfter hchars
    rw [ofString, String.toList_ofList, hunits]
    rfl
  · rintro rfl
    exact toString?_ofString s

end Utf16

/-! ## Bytes of units -/

namespace ModifiedUtf8

/-- What follows the first byte of a longer form. -/
def IsContinuation (byte : UInt8) : Prop := 0x80 ≤ byte.toNat ∧ byte.toNat ≤ 0xBF

/-- The forms of a unit. The first byte says how many bytes a form has; a form may have more of
them than its unit needs. -/
inductive Spells : Bytes → UInt16 → Prop where
  | one {first : UInt8} {unit : UInt16} : 0x01 ≤ first.toNat → first.toNat ≤ 0x7F →
      unit.toNat = first.toNat → Spells [first] unit
  | two {first second : UInt8} {unit : UInt16} : 0xC0 ≤ first.toNat → first.toNat ≤ 0xDF →
      IsContinuation second → unit.toNat = first.toNat % 32 * 64 + second.toNat % 64 →
      Spells [first, second] unit
  | three {first second third : UInt8} {unit : UInt16} : 0xE0 ≤ first.toNat →
      first.toNat ≤ 0xEF → IsContinuation second → IsContinuation third →
      unit.toNat = first.toNat % 16 * 4096 + second.toNat % 64 * 64 + third.toNat % 64 →
      Spells [first, second, third] unit

theorem continuation_eq_ok_iff {position low : Nat} {byte : UInt8} :
    continuation position byte = .ok low ↔ IsContinuation byte ∧ low = byte.toNat % 64 := by
  have hlt : byte.toNat < 256 := byte.toNat_lt
  have hrange : byte.toNat / 64 = 2 ↔ IsContinuation byte := by
    unfold IsContinuation
    omega
  unfold continuation
  split
  · rename_i hbyte
    simp [hrange.1 hbyte, eq_comm]
  · rename_i hbyte
    simp [mt hrange.2 hbyte]

/-- A form is read as what it spells, whatever follows. -/
theorem unitsAfter_append {form : Bytes} {unit : UInt16} (h : Spells form unit)
    (found : List UInt16) (position : Nat) (rest : Bytes) :
    unitsAfter found position (form ++ rest) =
      unitsAfter (unit :: found) (position + form.length) rest := by
  have hcontinues {byte : UInt8} (hbyte : IsContinuation byte) (position : Nat) :
      continuation position byte = .ok (byte.toNat % 64) :=
    continuation_eq_ok_iff.2 ⟨hbyte, rfl⟩
  cases h with
  | @one first unit hlow hhigh hunit =>
      rw [List.singleton_append, unitsAfter.eq_def]
      dsimp only
      rw [if_pos ⟨hlow, hhigh⟩, ← hunit, UInt16.ofNat_toNat]
      rfl
  | @two first second unit hlow hhigh hsecond hunit =>
      rw [List.cons_append, List.singleton_append, unitsAfter, if_neg (by omega),
        if_pos ⟨hlow, hhigh⟩]
      simp only [hcontinues hsecond, bind, Except.bind, ← hunit, UInt16.ofNat_toNat]
      rfl
  | @three first second third unit hlow hhigh hsecond hthird hunit =>
      rw [List.cons_append, List.cons_append, List.singleton_append, unitsAfter, if_neg (by omega),
        if_neg (by omega), if_pos ⟨hlow, hhigh⟩]
      simp only [hcontinues hsecond, hcontinues hthird, bind, Except.bind, ← hunit,
        UInt16.ofNat_toNat]
      rfl

/-- A reader that succeeds starts with a form, unless nothing is left. -/
theorem exists_form_of_unitsAfter {found units : List UInt16} {position : Nat} {first : UInt8}
    {bytes : Bytes} (h : unitsAfter found position (first :: bytes) = .ok units) :
    ∃ form unit rest, first :: bytes = form ++ rest ∧ Spells form unit := by
  have hunit {n : Nat} (hn : n < 65536) : (UInt16.ofNat n).toNat = n := UInt16.toNat_ofNat_of_lt' hn
  unfold unitsAfter at h
  dsimp only at h
  split at h
  · rename_i hone
    exact ⟨[first], _, bytes, rfl, .one hone.1 hone.2 (hunit (by omega))⟩
  split at h
  · rename_i htwo
    split at h
    · cases h
    rename_i second rest
    rcases Outcome.bind_eq_ok_iff.1 h with ⟨low, hlow, -⟩
    have hsecond := (continuation_eq_ok_iff.1 hlow).1
    exact ⟨[first, second], _, rest, rfl, .two htwo.1 htwo.2 hsecond (hunit (by omega))⟩
  split at h
  · rename_i hthree
    split at h
    · cases h
    rename_i second rest
    rcases Outcome.bind_eq_ok_iff.1 h with ⟨middle, hmiddle, hrest⟩
    cases rest with
    | nil => cases hrest
    | cons third rest =>
        rcases Outcome.bind_eq_ok_iff.1 hrest with ⟨low, hlow, -⟩
        have hsecond := (continuation_eq_ok_iff.1 hmiddle).1
        have hthird := (continuation_eq_ok_iff.1 hlow).1
        exact ⟨[first, second, third], _, rest, rfl,
          .three hthree.1 hthree.2 hsecond hthird (hunit (by omega))⟩
  · cases h

theorem Spells.ne_nil {form : Bytes} {unit : UInt16} (h : Spells form unit) : form ≠ [] := by
  cases h <;> exact List.cons_ne_nil _ _

theorem exists_forms_of_unitsAfter {found units : List UInt16} {position : Nat} {bytes : Bytes}
    (h : unitsAfter found position bytes = .ok units) :
    ∃ forms more, bytes = forms.flatten ∧ List.Forall₂ Spells forms more ∧
      units = found.reverse ++ more := by
  induction hlength : bytes.length using Nat.strongRecOn generalizing found position bytes with
  | ind length ih =>
      cases bytes with
      | nil =>
          cases h
          exact ⟨[], [], rfl, .nil, (List.append_nil _).symm⟩
      | cons first bytes =>
          rcases exists_form_of_unitsAfter h with ⟨form, unit, rest, hsplit, hform⟩
          rw [hsplit] at h hlength
          rw [unitsAfter_append hform] at h
          have hshorter : rest.length < length := by
            have hpos := List.length_pos_of_ne_nil hform.ne_nil
            rw [List.length_append] at hlength
            omega
          rcases ih rest.length hshorter h rfl with ⟨forms, more, rfl, hforms, rfl⟩
          refine ⟨form :: forms, unit :: more, hsplit, .cons hform hforms, ?_⟩
          rw [List.reverse_cons, List.append_assoc, List.singleton_append]

theorem unitsAfter_flatten {forms : List Bytes} {units : List UInt16}
    (h : List.Forall₂ Spells forms units) (found : List UInt16) (position : Nat) :
    unitsAfter found position forms.flatten = .ok (found.reverse ++ units) := by
  induction h generalizing found position with
  | nil => rw [List.append_nil]; rfl
  | cons hform hforms ih =>
      rw [List.flatten_cons, unitsAfter_append hform, ih, List.reverse_cons, List.append_assoc,
        List.singleton_append]

/-- Bytes are units exactly if they are forms of these units. -/
theorem decodeUnits_eq_ok_iff {bytes : Bytes} {units : List UInt16} :
    decodeUnits bytes = .ok units ↔
      ∃ forms, bytes = forms.flatten ∧ List.Forall₂ Spells forms units := by
  constructor
  · intro h
    rcases exists_forms_of_unitsAfter h with ⟨forms, more, hbytes, hforms, rfl⟩
    exact ⟨forms, hbytes, hforms⟩
  · rintro ⟨forms, rfl, h⟩
    exact unitsAfter_flatten h [] 0

theorem decode_eq_ok_iff {bytes : Bytes} {s : String} :
    decode bytes = .ok s ↔ decodeUnits bytes = .ok (Utf16.ofString s) := by
  rw [decode, Outcome.bind_eq_ok_iff]
  constructor
  · rintro ⟨units, hunits, htext⟩
    split at htext
    · rename_i text hspelled
      cases htext
      rw [hunits, Utf16.toString?_eq_some_iff.1 hspelled]
    · cases htext
  · intro h
    exact ⟨_, h, by rw [Utf16.toString?_ofString]⟩

theorem spells_encodeUnit (unit : UInt16) : Spells (encodeUnit unit) unit := by
  have hlt : unit.toNat < 65536 := unit.toNat_lt
  have hbyte {n : Nat} (hn : n < 256) : (UInt8.ofNat n).toNat = n := UInt8.toNat_ofNat_of_lt' hn
  have hcontinues (n : Nat) : IsContinuation (UInt8.ofNat (0x80 + n % 64)) := by
    rw [IsContinuation, hbyte (by omega)]
    omega
  unfold encodeUnit
  dsimp only
  split
  · have hfirst := hbyte (show unit.toNat < 256 by omega)
    exact .one (by omega) (by omega) hfirst.symm
  split
  · have hfirst := hbyte (show 0xC0 + unit.toNat / 64 < 256 by omega)
    have hsecond := hbyte (show 0x80 + unit.toNat % 64 < 256 by omega)
    exact .two (by omega) (by omega) (hcontinues _) (by omega)
  · have hfirst := hbyte (show 0xE0 + unit.toNat / 4096 < 256 by omega)
    have hsecond := hbyte (show 0x80 + unit.toNat / 64 % 64 < 256 by omega)
    have hthird := hbyte (show 0x80 + unit.toNat % 64 < 256 by omega)
    exact .three (by omega) (by omega) (hcontinues _) (hcontinues _) (by omega)

/-- The forms that are written for a text. -/
theorem spells_map_encodeUnit (units : List UInt16) :
    List.Forall₂ Spells (units.map encodeUnit) units := by
  rw [List.forall₂_map_left_iff, List.forall₂_same]
  exact fun unit _ => spells_encodeUnit unit

/-- The bytes of a text spell its units. -/
theorem decodeUnits_encode (s : String) : decodeUnits (encode s) = .ok (Utf16.ofString s) :=
  decodeUnits_eq_ok_iff.2 ⟨_, List.flatMap_def, spells_map_encodeUnit _⟩

end ModifiedUtf8

end CallProbe
