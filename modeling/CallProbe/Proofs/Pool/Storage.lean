import CallProbe.Proofs.Pool.Symbols
import CallProbe.Proofs.Text.ModifiedUtf8
import Mathlib.Algebra.GroupWithZero.Nat

/-!
# Stored pools are read back

A constant has one stored form, which begins with its tag. A pool is nothing but the
constants it was filled with, one after the other, so the pool that is read from the stored
form of these is the same one, look-up included.
-/

namespace CallProbe

open Reader Cursor

variable {c d : Cursor}

/-! ## Constants -/

namespace Constant

/-- The constants that have a stored form of their own: a text has to fit its length field, and a
raw text may be anything that spells units, unless it is the form of a proper text. -/
def Storable : Constant → Prop
  | utf8 text => (ModifiedUtf8.encode text).length ≤ maxTextLength
  | rawUtf8 bytes => bytes.length ≤ maxTextLength ∧
    ∃ units, ModifiedUtf8.decodeUnits bytes = .ok units ∧ ofText bytes units = rawUtf8 bytes
  | _ => True

theorem slots_pos (constant : Constant) : 0 < constant.slots := by
  cases constant <;> exact Nat.zero_lt_succ _

theorem slots_eq_one_of_ne {constant : Constant} (h : constant.slots ≠ 2) : constant.slots = 1 := by
  cases constant <;> simp_all [slots]

theorem ofText_cases (bytes : Bytes) (units : List UInt16) :
    ofText bytes units = rawUtf8 bytes ∨
      ∃ text, ofText bytes units = utf8 text ∧ ModifiedUtf8.encode text = bytes := by
  unfold ofText
  cases Utf16.toString? units with
  | none => exact .inl rfl
  | some text =>
      by_cases hshortest : ModifiedUtf8.encode text = bytes
      · exact .inr ⟨text, if_pos hshortest, hshortest⟩
      · exact .inl (if_neg hshortest)

/-- Bytes that spell units make a storable constant, whose operands they are. -/
theorem storable_ofText {bytes : Bytes} {units : List UInt16}
    (hlength : bytes.length ≤ maxTextLength)
    (hunits : ModifiedUtf8.decodeUnits bytes = .ok units) : (ofText bytes units).Storable ∧
      (ofText bytes units).encode = 1 :: bytes16 (UInt16.ofNat bytes.length) ++ bytes := by
  rcases ofText_cases bytes units with hraw | ⟨text, htext, rfl⟩
  · rw [hraw]
    exact ⟨⟨hlength, units, hunits, hraw⟩, rfl⟩
  · rw [htext]
    exact ⟨hlength, rfl⟩

/-- A storable text constant is made of its bytes. -/
theorem exists_units_utf8 (text : String) : ∃ units,
    ModifiedUtf8.decodeUnits (ModifiedUtf8.encode text) = .ok units ∧
      ofText (ModifiedUtf8.encode text) units = utf8 text := by
  refine ⟨_, ModifiedUtf8.decodeUnits_encode text, ?_⟩
  rw [ofText, Utf16.toString?_ofString]
  exact if_pos rfl

private theorem reader_of_text {bytes : Bytes} {units : List UInt16}
    (hlength : bytes.length ≤ maxTextLength)
    (hunits : ModifiedUtf8.decodeUnits bytes = .ok units)
    (h : c.Passes (1 :: bytes16 (UInt16.ofNat bytes.length) ++ bytes) d) :
    reader c = .ok (ofText bytes units, d) := by
  have hback : (UInt16.ofNat bytes.length).toNat = bytes.length :=
    UInt16.toNat_ofNat_of_lt' (Nat.lt_succ_of_le hlength)
  rw [List.cons_append] at h
  obtain ⟨m, htag, h⟩ := passes_cons_iff.1 h
  obtain ⟨m', hcount, hbytes⟩ := passes_append_iff.1 h
  unfold reader
  simp only [Reader.bind_eq_ok_iff, get_eq_ok_iff, u8_eq_ok_iff]
  refine ⟨c, c, ⟨rfl, rfl⟩, 1, m, htag, ?_⟩
  simp only [Reader.bind_eq_ok_iff, u16_eq_ok_iff, take_eq_ok_iff, lift_eq_ok_iff,
    Reader.pure_eq_ok_iff]
  exact ⟨_, m', hcount, bytes, d, ⟨hback.symm, hbytes⟩, units, d, ⟨hunits, rfl⟩, rfl, rfl⟩

private theorem reader_of_plain {constant : Constant} (htext : ∀ text, constant ≠ utf8 text)
    (hraw : ∀ bytes, constant ≠ rawUtf8 bytes) (h : c.Passes constant.encode d) :
    reader c = .ok (constant, d) := by
  obtain ⟨m, htag, h⟩ := passes_cons_iff.1 h
  unfold reader
  simp only [Reader.bind_eq_ok_iff, get_eq_ok_iff, u8_eq_ok_iff]
  refine ⟨c, c, ⟨rfl, rfl⟩, _, m, htag, ?_⟩
  cases constant with
  | utf8 text => exact absurd rfl (htext text)
  | rawUtf8 bytes => exact absurd rfl (hraw bytes)
  | integer value => exact (i32_inverts.return_eq_ok_iff _).2 ⟨_, rfl, h⟩
  | float bits => exact (u32_inverts.return_eq_ok_iff _).2 ⟨_, rfl, h⟩
  | long value => exact (i64_inverts.return_eq_ok_iff _).2 ⟨_, rfl, h⟩
  | double bits => exact (u64_inverts.return_eq_ok_iff _).2 ⟨_, rfl, h⟩
  | member kind owner signature =>
      obtain ⟨m', hfirst, hsecond⟩ := passes_append_iff.1 h
      cases kind <;>
        exact Reader.bind_eq_ok_iff.2 ⟨_, m', u16_eq_ok_iff.2 hfirst,
          (u16_inverts.return_eq_ok_iff _).2 ⟨_, rfl, hsecond⟩⟩
  | nameAndType first second | dynamic first second | invokeDynamic first second =>
      obtain ⟨m', hfirst, hsecond⟩ := passes_append_iff.1 h
      exact Reader.bind_eq_ok_iff.2 ⟨_, m', u16_eq_ok_iff.2 hfirst,
        (u16_inverts.return_eq_ok_iff _).2 ⟨_, rfl, hsecond⟩⟩
  | methodHandle kind reference =>
      obtain ⟨m', hkind, hreference⟩ := passes_cons_iff.1 h
      exact Reader.bind_eq_ok_iff.2 ⟨_, m', u8_eq_ok_iff.2 hkind,
        (u16_inverts.return_eq_ok_iff _).2 ⟨_, rfl, hreference⟩⟩
  | _ => exact (u16_inverts.return_eq_ok_iff _).2 ⟨_, rfl, h⟩

/-- A constant is read from its stored form, and from nothing else. -/
theorem reader_invertsOn : reader.InvertsOn Storable encode := by
  intro c constant d
  constructor
  · intro h
    unfold reader at h
    simp only [Reader.bind_eq_ok_iff, get_eq_ok_iff, u8_eq_ok_iff] at h
    rcases h with ⟨_, _, ⟨rfl, rfl⟩, tag, m, htag, h⟩
    split at h
    all_goals simp only [Reader.bind_eq_ok_iff, Reader.pure_eq_ok_iff, u8_eq_ok_iff, u16_eq_ok_iff,
      u32_eq_ok_iff, i32_eq_ok_iff, u64_eq_ok_iff, i64_eq_ok_iff, take_eq_ok_iff, lift_eq_ok_iff,
      Reader.throw_ne_ok] at h
    case h_1 =>
      rcases h with ⟨length, m', hlength, bytes, _, ⟨hcount, hbytes⟩, units, _, ⟨hunits, rfl⟩, rfl,
        rfl⟩
      have hle : bytes.length ≤ maxTextLength := by
        have hlt := length.toNat_lt
        unfold maxTextLength
        omega
      obtain ⟨hstorable, hencode⟩ := storable_ofText hle hunits
      refine ⟨hstorable, ?_⟩
      rw [hencode, hcount, UInt16.ofNat_toNat]
      exact (htag.trans hlength).trans hbytes
    case h_8 | h_9 | h_10 | h_11 | h_12 | h_14 | h_15 =>
      rcases h with ⟨_, _, hfirst, _, _, hsecond, rfl, rfl⟩
      exact ⟨trivial, (htag.trans hfirst).trans hsecond⟩
    all_goals
      rcases h with ⟨_, _, hvalue, rfl, rfl⟩
      exact ⟨trivial, htag.trans hvalue⟩
  · intro h
    rcases h with ⟨hstorable, h⟩
    cases constant with
    | utf8 text =>
        obtain ⟨units, hunits, htext⟩ := exists_units_utf8 text
        have hread := reader_of_text hstorable hunits h
        rwa [htext] at hread
    | rawUtf8 bytes =>
        rcases hstorable with ⟨hlength, units, hunits, htext⟩
        have hread := reader_of_text hlength hunits h
        rwa [htext] at hread
    | _ => exact reader_of_plain (by simp) (by simp) h

end Constant

/-! ## Pools -/

namespace Pool

variable {pool result : Pool} {constant : Constant}

/-- The pool that holds some constants in their order. -/
def ofConstants (constants : List Constant) : Pool := constants.foldl append new

theorem constants_append (pool : Pool) (constant : Constant) :
    (pool.append constant).constants = pool.constants ++ [constant] := by
  unfold append constants
  dsimp only
  split <;> simp

theorem constants_foldl_append (pool : Pool) (constants : List Constant) :
    (constants.foldl append pool).constants = pool.constants ++ constants := by
  induction constants generalizing pool with
  | nil => simp
  | cons constant rest ih => rw [List.foldl_cons, ih, constants_append]; simp

theorem slots_foldl_append (pool : Pool) (constants : List Constant) :
    (constants.foldl append pool).slots = pool.slots + (constants.map Constant.slots).sum := by
  induction constants generalizing pool with
  | nil => simp
  | cons constant rest ih =>
      rw [List.foldl_cons, ih, slots_append, List.map_cons, List.sum_cons, Nat.add_assoc]

theorem constants_ofConstants (constants : List Constant) :
    (ofConstants constants).constants = constants := by
  rw [ofConstants, constants_foldl_append]
  rfl

theorem slots_ofConstants (constants : List Constant) :
    (ofConstants constants).slots = 1 + (constants.map Constant.slots).sum :=
  slots_foldl_append new constants

private theorem fill_succ_eq_ok_iff {count left : Nat} :
    fill count (left + 1) pool c = .ok (result, d) ↔ ∃ constant m,
      Constant.reader c = .ok (constant, m) ∧ constant.slots ≤ left + 1 ∧
      fill count (left + 1 - constant.slots) (pool.append constant) m = .ok (result, d) := by
  rw [fill, Reader.bind_eq_ok_iff]
  refine exists_congr fun constant => exists_congr fun m => and_congr_right fun _ => ?_
  by_cases hwide : constant.slots = 2
  · rw [if_pos hwide, hwide]
    cases left with
    | zero => simp
    | succ left => simp
  · rw [if_neg hwide, Constant.slots_eq_one_of_ne hwide]
    simp

/-- Filling a pool puts storable constants into it until no slot is left. -/
theorem fill_eq_ok_iff {count left : Nat} : fill count left pool c = .ok (result, d) ↔
    ∃ constants : List Constant, result = constants.foldl append pool ∧
      (constants.map Constant.slots).sum = left ∧
      (∀ constant ∈ constants, constant.Storable) ∧
      c.Passes (constants.flatMap Constant.encode) d := by
  induction left using Nat.strongRecOn generalizing pool c with
  | ind left ih =>
      cases left with
      | zero =>
          rw [fill, Reader.pure_eq_ok_iff]
          constructor
          · rintro ⟨rfl, rfl⟩
            exact ⟨[], rfl, rfl, by simp, passes_nil_iff.2 rfl⟩
          · rintro ⟨constants, rfl, hslots, -, hpasses⟩
            cases constants with
            | nil => exact ⟨rfl, passes_nil_iff.1 hpasses⟩
            | cons constant rest =>
                have hpos := constant.slots_pos
                simp only [List.map_cons, List.sum_cons] at hslots
                omega
      | succ left =>
          rw [fill_succ_eq_ok_iff]
          constructor
          · rintro ⟨constant, m, hread, hroom, hrest⟩
            have hpos := constant.slots_pos
            obtain ⟨hhead, hpasses⟩ := (Constant.reader_invertsOn _ _ _).1 hread
            obtain ⟨rest, rfl, hslots, hstorable, hpasses'⟩ := (ih _ (by omega)).1 hrest
            refine ⟨constant :: rest, rfl, ?_, List.forall_mem_cons.2 ⟨hhead, hstorable⟩,
              hpasses.trans hpasses'⟩
            rw [List.map_cons, List.sum_cons, hslots, Nat.add_sub_cancel' hroom]
          · rintro ⟨constants, rfl, hslots, hstorable, hpasses⟩
            cases constants with
            | nil => cases hslots
            | cons constant rest =>
                have hpos := constant.slots_pos
                obtain ⟨hhead, htail⟩ := List.forall_mem_cons.1 hstorable
                rw [List.map_cons, List.sum_cons] at hslots
                rw [List.flatMap_cons] at hpasses
                obtain ⟨m, hconstant, hrest⟩ := passes_append_iff.1 hpasses
                refine ⟨constant, m, (Constant.reader_invertsOn _ _ _).2 ⟨hhead, hconstant⟩,
                  by omega, (ih _ (by omega)).2 ⟨rest, rfl, by omega, htail, hrest⟩⟩

/-- A pool that has a stored form: it holds nothing but storable constants, in slots that can be
counted. -/
structure Storable (pool : Pool) : Prop where
  filled : pool = ofConstants pool.constants
  constants : ∀ constant ∈ pool.constants, constant.Storable
  slots_le : pool.slots ≤ maxSlots

/-- A pool is read from its stored form, and from nothing else. -/
theorem reader_invertsOn : reader.InvertsOn Storable encode := by
  intro c pool d
  unfold reader
  simp only [Reader.bind_eq_ok_iff, u16_eq_ok_iff]
  constructor
  · rintro ⟨count, m, hcount, h⟩
    split at h
    · simp [Reader.bind_eq_ok_iff] at h
    rename_i hpos
    obtain ⟨constants, rfl, hslots, hstorable, hpasses⟩ := fill_eq_ok_iff.1 h
    have hsame := constants_ofConstants constants
    have htotal := slots_ofConstants constants
    have hlt : count.toNat < 65536 := count.toNat_lt
    have hback : count = (ofConstants constants).count := by
      unfold Pool.count
      rw [htotal, hslots, Nat.add_sub_cancel' (by omega), UInt16.ofNat_toNat]
    change (ofConstants constants).Storable ∧ c.Passes (ofConstants constants).encode d
    refine ⟨⟨by rw [hsame], by rwa [hsame], by unfold maxSlots; omega⟩, ?_⟩
    rw [encode, hsame, ← hback]
    exact hcount.trans hpasses
  · rintro ⟨h, hpasses⟩
    have htotal := slots_ofConstants pool.constants
    rw [← h.filled] at htotal
    obtain ⟨m, hcount, hconstants⟩ := passes_append_iff.1 hpasses
    refine ⟨_, m, hcount, ?_⟩
    rw [toNat_count h.slots_le, if_neg (by omega)]
    exact fill_eq_ok_iff.2 ⟨_, h.filled, by omega, h.constants, hconstants⟩

theorem ofBytes_eq_ok_iff {data : Bytes} : ofBytes data = .ok pool ↔
    pool.Storable ∧ ∃ d, (Cursor.ofBytes data).Passes pool.encode d := by
  rw [ofBytes, read_eq_ok_iff, ← exists_and_left]
  exact exists_congr fun d => reader_invertsOn _ _ _

/-! ## Pools that grow -/

theorem new_storable : new.Storable := ⟨rfl, by simp [constants, new], by decide⟩

theorem Storable.append (h : pool.Storable) (hconstant : constant.Storable)
    (hroom : pool.slots + constant.slots ≤ maxSlots) : (pool.append constant).Storable := by
  refine ⟨?_, ?_, by rwa [slots_append]⟩
  · rw [constants_append, ofConstants, List.foldl_append, List.foldl_cons, List.foldl_nil]
    exact congrArg (Pool.append · constant) h.filled
  · rw [constants_append]
    intro other hother
    rcases List.mem_append.1 hother with hold | hnew
    · exact h.constants other hold
    · exact List.mem_singleton.1 hnew ▸ hconstant

/-- A constant that `add` lets through is storable, unless it is a text by its bytes, which are not
looked at. -/
theorem add_keeps_storable (hplain : (Addition.constant constant).isRaw = false) :
    (add constant).Keeps Storable := by
  refine add_keeps fun pool h htext hroom => h.append ?_ hroom
  cases constant with
  | utf8 text =>
      change (ModifiedUtf8.encode text).length ≤ maxTextLength
      rw [ModifiedUtf8.length_encode]
      exact htext
  | rawUtf8 bytes => cases hplain
  | _ => trivial

/-- The pools that come about where no text is added by its bytes. -/
inductive BuiltOfText : Pool → Prop
  | new : BuiltOfText new
  | ofBytes {data : Bytes} {pool : Pool} (h : ofBytes data = .ok pool) : BuiltOfText pool
  | add {pool : Pool} (h : BuiltOfText pool) (addition : Addition)
      (plain : addition.isRaw = false) : BuiltOfText (addition.edit pool).2

theorem BuiltOfText.storable (h : pool.BuiltOfText) : pool.Storable := by
  induction h with
  | new => exact new_storable
  | ofBytes h => exact (ofBytes_eq_ok_iff.1 h).1
  | add _ addition plain ih =>
      exact addition.edit_keeps (fun c hc => add_keeps_storable (by simpa [plain] using hc)) _ ih

/-- The stored form of a pool that was read is what it was read from, whatever its texts are; and
from the stored form of a pool that was built of texts the same pool is read. -/
theorem stored_form_round_trips :
    (∀ {data : Bytes} {pool : Pool}, ofBytes data = .ok pool → ∃ d,
      reader (Cursor.ofBytes data) = .ok (pool, d) ∧ pool.encode = data.take d.pos) ∧
    ∀ {pool : Pool}, pool.BuiltOfText → ofBytes pool.encode = .ok pool := by
  constructor
  · intro data pool h
    obtain ⟨hstorable, d, hpasses⟩ := ofBytes_eq_ok_iff.1 h
    refine ⟨d, (reader_invertsOn _ _ _).2 ⟨hstorable, hpasses⟩, ?_⟩
    have hdata : data = pool.encode ++ d.ahead := hpasses.ahead
    have hpos : d.pos = pool.encode.length := hpasses.pos.trans (Nat.zero_add _)
    rw [hpos, hdata, List.take_left]
  · intro pool h
    obtain ⟨d, hpasses, -⟩ :=
      passes_skip (Cursor.ofBytes pool.encode) pool.encode [] (by simp [Cursor.ofBytes])
    exact ofBytes_eq_ok_iff.2 ⟨h.storable, d, hpasses⟩

/-- A stored pool of an unpaired surrogate, a long number and a string, and a byte behind it. -/
def surrogateData : Bytes :=
  [0, 5, 1, 0, 3, 0xED, 0xA0, 0x80, 5, 0, 0, 0, 0, 0, 0, 1, 0, 8, 0, 1, 0xFF]

def surrogatePool : Pool :=
  ((new.append (.rawUtf8 [0xED, 0xA0, 0x80])).append (.long 256)).append (.string 1)

theorem surrogate_round_trips :
    ofBytes surrogateData = .ok surrogatePool ∧
    (∃ d, reader (Cursor.ofBytes surrogateData) = .ok (surrogatePool, d) ∧
      surrogatePool.encode = surrogateData.take d.pos) ∧
    (surrogatePool.append (.utf8 "next")).BuiltOfText ∧
    ofBytes (surrogatePool.append (.utf8 "next")).encode =
      .ok (surrogatePool.append (.utf8 "next")) := by
  have hread : ofBytes surrogateData = .ok surrogatePool := rfl
  have hadd : addText "next" surrogatePool = (.ok 5, surrogatePool.append (.utf8 "next")) :=
    add_of_fresh (by simp [lookup_append, lookup_new, surrogatePool]) (by decide) (by decide)
  have hbuilt := BuiltOfText.add (.ofBytes hread) (.text "next") rfl
  rw [Addition.edit, hadd] at hbuilt
  exact ⟨hread, stored_form_round_trips.1 hread, hbuilt, stored_form_round_trips.2 hbuilt⟩

end Pool

end CallProbe
