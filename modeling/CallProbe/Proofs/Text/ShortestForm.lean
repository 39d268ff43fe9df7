import CallProbe.Proofs.Text.ModifiedUtf8

/-!
# Shortest forms

The first byte of a form tells how long it is, so bytes fall into forms in one way only. A
text is written back as the bytes it was read from exactly if none of their forms is longer
than its unit needs.
-/

namespace CallProbe.ModifiedUtf8

/-! ## Forms stand apart -/

/-- Number of bytes that follow the first one of a form. -/
def following (first : UInt8) : Nat :=
  if first.toNat < 0x80 then 0 else if first.toNat < 0xE0 then 1 else 2

theorem Spells.exists_cons {form : Bytes} {unit : UInt16} (h : Spells form unit) :
    ∃ first tail, form = first :: tail ∧ tail.length = following first := by
  cases h with
  | one hlow hhigh _ => exact ⟨_, _, rfl, by rw [following, if_pos (by omega)]; rfl⟩
  | two hlow hhigh _ _ =>
      exact ⟨_, _, rfl, by rw [following, if_neg (by omega), if_pos (by omega)]; rfl⟩
  | three hlow hhigh _ _ _ =>
      exact ⟨_, _, rfl, by rw [following, if_neg (by omega), if_neg (by omega)]; rfl⟩

/-- No form starts another one. -/
theorem Spells.eq_of_append {form form' rest rest' : Bytes} {unit unit' : UInt16}
    (h : Spells form unit) (h' : Spells form' unit') (heq : form ++ rest = form' ++ rest') :
    form = form' ∧ rest = rest' := by
  rcases h.exists_cons with ⟨first, tail, rfl, hlength⟩
  rcases h'.exists_cons with ⟨first', tail', rfl, hlength'⟩
  rcases List.cons.inj heq with ⟨rfl, htails⟩
  rcases List.append_inj htails (hlength.trans hlength'.symm) with ⟨rfl, hrest⟩
  exact ⟨rfl, hrest⟩

/-- The forms in a sequence of bytes are determined by the bytes. -/
theorem forms_unique {forms forms' : List Bytes} {units units' : List UInt16}
    (h : List.Forall₂ Spells forms units) (h' : List.Forall₂ Spells forms' units')
    (heq : forms.flatten = forms'.flatten) : forms = forms' := by
  induction h generalizing forms' units' with
  | nil =>
      cases h' with
      | nil => rfl
      | cons hform _ => exact absurd (List.append_eq_nil_iff.1 heq.symm).1 hform.ne_nil
  | cons hform _ ih =>
      cases h' with
      | nil => exact absurd (List.append_eq_nil_iff.1 heq).1 hform.ne_nil
      | cons hform' hforms' =>
          rw [List.flatten_cons, List.flatten_cons] at heq
          rcases hform.eq_of_append hform' heq with ⟨rfl, hrest⟩
          rw [ih hforms' hrest]

theorem Spells.bounds {form : Bytes} {unit : UInt16} (h : Spells form unit) :
    ∀ byte ∈ form, 0 < byte.toNat ∧ byte.toNat < 0xF0 := by
  cases h with
  | one hlow hhigh hunit => exact List.forall_mem_singleton.2 (by omega)
  | two hlow hhigh hsecond hunit =>
      unfold IsContinuation at hsecond
      exact List.forall_mem_cons.2 ⟨by omega, List.forall_mem_singleton.2 (by omega)⟩
  | three hlow hhigh hsecond hthird hunit =>
      unfold IsContinuation at hsecond hthird
      exact List.forall_mem_cons.2 ⟨by omega,
        List.forall_mem_cons.2 ⟨by omega, List.forall_mem_singleton.2 (by omega)⟩⟩

/-! ## What forms need -/

/-- Whether a form has no more bytes than its unit needs. -/
structure IsShortest (form : Bytes) (unit : UInt16) : Prop where
  one : form.length = 1 → 0x01 ≤ unit.toNat ∧ unit.toNat ≤ 0x7F
  two : form.length = 2 → unit.toNat = 0 ∨ 0x80 ≤ unit.toNat ∧ unit.toNat ≤ 0x7FF
  three : form.length = 3 → 0x800 ≤ unit.toNat

theorem isShortest_encodeUnit (unit : UInt16) : IsShortest (encodeUnit unit) unit := by
  unfold encodeUnit
  dsimp only
  split
  · rename_i hone
    exact ⟨fun _ => hone, nofun, nofun⟩
  split
  · exact ⟨nofun, fun _ => by omega, nofun⟩
  · exact ⟨nofun, nofun, fun _ => by omega⟩

theorem Spells.eq_encodeUnit {form : Bytes} {unit : UInt16} (h : Spells form unit)
    (hshortest : IsShortest form unit) : form = encodeUnit unit := by
  have hbyte {byte : UInt8} {n : Nat} (hn : byte.toNat = n) : byte = UInt8.ofNat n := by
    rw [← hn, UInt8.ofNat_toNat]
  unfold encodeUnit
  dsimp only
  cases h with
  | one hlow hhigh hunit =>
      rw [if_pos (by omega), hunit, UInt8.ofNat_toNat]
  | two hlow hhigh hsecond hunit =>
      have hneeds := hshortest.two rfl
      unfold IsContinuation at hsecond
      rw [if_neg (by omega), if_pos (by omega)]
      congr 1
      · exact hbyte (by omega)
      · congr 1
        exact hbyte (by omega)
  | three hlow hhigh hsecond hthird hunit =>
      have hneeds := hshortest.three rfl
      unfold IsContinuation at hsecond hthird
      rw [if_neg (by omega), if_neg (by omega)]
      congr 1
      · exact hbyte (by omega)
      · congr 1
        · exact hbyte (by omega)
        · congr 1
          exact hbyte (by omega)

theorem eq_map_encodeUnit_iff {forms : List Bytes} {units : List UInt16}
    (h : List.Forall₂ Spells forms units) :
    forms = units.map encodeUnit ↔ List.Forall₂ IsShortest forms units := by
  constructor
  · rintro rfl
    rw [List.forall₂_map_left_iff, List.forall₂_same]
    exact fun unit _ => isShortest_encodeUnit unit
  · intro hshortest
    induction h with
    | nil => rfl
    | cons hform _ ih =>
        rcases List.forall₂_cons.1 hshortest with ⟨hfirst, hothers⟩
        rw [List.map_cons, ← hform.eq_encodeUnit hfirst, ← ih hothers]

/-- Texts survive being written, in bytes that are counted beforehand and none of which is zero or
starts a longer form. A text is written as the bytes it was read from exactly if these write each
unit in its shortest form. -/
theorem text_codec_faithful (s : String) :
    decode (encode s) = .ok s ∧ encodedLength s = (encode s).length ∧
      (∀ byte ∈ encode s, 0 < byte.toNat ∧ byte.toNat < 0xF0) ∧
      ∀ bytes, decode bytes = .ok s →
        ∃ forms, forms.flatten = bytes ∧ List.Forall₂ Spells forms (Utf16.ofString s) ∧
          (encode s = bytes ↔ List.Forall₂ IsShortest forms (Utf16.ofString s)) := by
  have hencode : encode s = ((Utf16.ofString s).map encodeUnit).flatten := List.flatMap_def
  refine ⟨?_, (length_encode s).symm, ?_, ?_⟩
  · exact decode_eq_ok_iff.2 (decodeUnits_encode s)
  · intro byte hbyte
    rcases List.mem_flatMap.1 hbyte with ⟨unit, _, hmem⟩
    exact (spells_encodeUnit unit).bounds byte hmem
  · intro bytes hread
    rcases decodeUnits_eq_ok_iff.1 (decode_eq_ok_iff.1 hread) with ⟨forms, rfl, hforms⟩
    refine ⟨forms, rfl, hforms, ?_⟩
    rw [← eq_map_encodeUnit_iff hforms, hencode]
    constructor
    · intro heq
      exact (forms_unique (spells_map_encodeUnit _) hforms heq).symm
    · rintro rfl
      rfl

/-- A letter in two bytes more than it needs, a pair of surrogates, and zero. -/
def longLetter : Bytes := [0xE0, 0x81, 0x81, 0xED, 0xA0, 0xBD, 0xED, 0xB8, 0x80, 0xC0, 0x80]

theorem longLetter_not_shortest :
    decode longLetter = .ok "A😀\x00" ∧
      ∃ forms, forms.flatten = longLetter ∧
        List.Forall₂ Spells forms (Utf16.ofString "A😀\x00") ∧
        (encode "A😀\x00" = longLetter ↔
          List.Forall₂ IsShortest forms (Utf16.ofString "A😀\x00")) := by
  have hread : decode longLetter = .ok "A😀\x00" := by decide
  exact ⟨hread, (text_codec_faithful "A😀\x00").2.2.2 longLetter hread⟩

end CallProbe.ModifiedUtf8
