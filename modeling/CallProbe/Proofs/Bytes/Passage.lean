import CallProbe.Bytes.Cursor
import Mathlib.Algebra.Group.Nat.Defs
import Mathlib.Data.List.Induction

/-!
# The bytes a reader moves over

A successful reader moves its cursor over some bytes, and for every reader of this
library these bytes and the value they yield determine each other. Statements are
equivalences, so they serve reading what was written as well as writing what was
read. `Reader.Inverts` is the common case of a value with a single stored form.
-/

namespace CallProbe

namespace Cursor

/-- `next` is `c` moved over `bytes`. -/
structure Passes (c : Cursor) (bytes : Bytes) (next : Cursor) : Prop where
  data : next.data = c.data
  pos : next.pos = c.pos + bytes.length
  ahead : c.ahead = bytes ++ next.ahead

theorem passes_skip (c : Cursor) (bytes rest : Bytes) (h : c.ahead = bytes ++ rest) :
    ∃ next, c.Passes bytes next ∧ next.ahead = rest := by
  have hw : bytes.length ≤ c.ahead.length := by simp [h]
  have hr : (c.skip bytes.length hw).ahead = rest := by simp [skip, h]
  exact ⟨c.skip bytes.length hw, ⟨rfl, rfl, by rw [hr, h]⟩, hr⟩

theorem Passes.unique {c d e : Cursor} {bytes : Bytes} (h : c.Passes bytes d)
    (h' : c.Passes bytes e) : d = e :=
  Cursor.ext (h.data.trans h'.data.symm) (h.pos.trans h'.pos.symm)

@[simp] theorem passes_nil_iff {c d : Cursor} : c.Passes [] d ↔ d = c := by
  constructor
  · intro h
    exact h.unique ⟨rfl, rfl, rfl⟩
  · rintro rfl
    exact ⟨rfl, rfl, rfl⟩

theorem Passes.trans {c d e : Cursor} {front back : Bytes} (h : c.Passes front d)
    (h' : d.Passes back e) : c.Passes (front ++ back) e := by
  refine ⟨h'.data.trans h.data, ?_, ?_⟩
  · rw [h'.pos, h.pos, List.length_append, Nat.add_assoc]
  · rw [h.ahead, h'.ahead, List.append_assoc]

/-- Moving over two pieces is moving over the first and then over the second. -/
theorem passes_append_iff {c e : Cursor} {front back : Bytes} :
    c.Passes (front ++ back) e ↔ ∃ d, c.Passes front d ∧ d.Passes back e := by
  constructor
  · intro h
    obtain ⟨d, hd, hrest⟩ := c.passes_skip front (back ++ e.ahead) (by simp [h.ahead])
    refine ⟨d, hd, h.data.trans hd.data.symm, ?_, hrest⟩
    rw [h.pos, hd.pos, List.length_append, Nat.add_assoc]
  · rintro ⟨d, hd, he⟩
    exact hd.trans he

theorem passes_cons_iff {c e : Cursor} {byte : UInt8} {back : Bytes} :
    c.Passes (byte :: back) e ↔ ∃ d, c.Passes [byte] d ∧ d.Passes back e := by
  rw [← List.singleton_append, passes_append_iff]

end Cursor

/-- Reading bytes as a number and writing it at their length gives them back. -/
theorem BigEndian.ofNat_toNat (bytes : Bytes) :
    BigEndian.ofNat bytes.length (BigEndian.toNat bytes) = bytes := by
  induction bytes using List.reverseRecOn with
  | nil => rfl
  | append_singleton bytes byte ih =>
      rw [toNat_append_singleton, List.length_append, List.length_singleton, BigEndian.ofNat]
      have hbyte : byte.toNat < 256 := byte.toNat_lt
      rw [show (toNat bytes * 256 + byte.toNat) / 256 = toNat bytes by omega, ih]
      congr 2
      apply UInt8.toNat_inj.1
      simp

theorem BigEndian.toNat_lt (bytes : Bytes) : toNat bytes < 256 ^ bytes.length := by
  induction bytes using List.reverseRecOn with
  | nil => decide
  | append_singleton bytes byte ih =>
      have hbyte : byte.toNat < 256 := byte.toNat_lt
      rw [toNat_append_singleton, List.length_append, List.length_singleton, Nat.pow_succ]
      omega

namespace Reader

open Cursor

variable {α β : Type} {c d : Cursor}

/-! ## The computations readers are built from -/

@[simp] theorem pure_eq_ok_iff {a b : α} :
    (pure a : Reader α) c = .ok (b, d) ↔ b = a ∧ d = c := by
  change Except.ok (a, c) = Except.ok (b, d) ↔ _
  rw [Except.ok.injEq, Prod.mk.injEq]
  exact and_congr eq_comm eq_comm

theorem bind_eq_ok_iff {reader : Reader α} {next : α → Reader β} {b : β} :
    (reader >>= next) c = .ok (b, d) ↔ ∃ a m, reader c = .ok (a, m) ∧ next a m = .ok (b, d) := by
  change (reader c >>= fun p => next p.1 p.2) = _ ↔ _
  cases hr : reader c with
  | error fault => simp [bind, Except.bind]
  | ok p =>
      rcases p with ⟨a, m⟩
      simp only [bind, Except.bind, Except.ok.injEq, Prod.mk.injEq]
      constructor
      · intro h
        exact ⟨a, m, ⟨rfl, rfl⟩, h⟩
      · rintro ⟨a', m', ⟨rfl, rfl⟩, h⟩
        exact h

theorem map_eq_ok_iff {reader : Reader α} {f : α → β} {b : β} :
    (f <$> reader) c = .ok (b, d) ↔ ∃ a, reader c = .ok (a, d) ∧ b = f a := by
  change (reader c >>= fun p => Except.ok (f p.1, p.2)) = _ ↔ _
  cases hr : reader c with
  | error fault => simp [bind, Except.bind]
  | ok p =>
      rcases p with ⟨a, m⟩
      simp only [bind, Except.bind, Except.ok.injEq, Prod.mk.injEq]
      constructor
      · rintro ⟨rfl, rfl⟩
        exact ⟨a, ⟨rfl, rfl⟩, rfl⟩
      · rintro ⟨a', ⟨rfl, rfl⟩, rfl⟩
        exact ⟨rfl, rfl⟩

@[simp] theorem throw_ne_ok {fault : Fault} {a : α} :
    (throw fault : Reader α) c ≠ .ok (a, d) := by
  intro h
  cases h

@[simp] theorem lift_eq_ok_iff {result : Except Fault α} {a : α} :
    (liftM result : Reader α) c = .ok (a, d) ↔ result = .ok a ∧ d = c := by
  change (result >>= fun a => Except.ok (a, c)) = _ ↔ _
  cases result with
  | error fault => simp [bind, Except.bind]
  | ok b => simp [bind, Except.bind, eq_comm]

@[simp] theorem get_eq_ok_iff {e : Cursor} :
    (get : Reader Cursor) c = .ok (e, d) ↔ e = c ∧ d = c := by
  change Except.ok (c, c) = Except.ok (e, d) ↔ _
  rw [Except.ok.injEq, Prod.mk.injEq]
  exact and_congr eq_comm eq_comm

theorem read_eq_ok_iff {reader : Reader α} {data : Bytes} {a : α} :
    reader.read data = .ok a ↔ ∃ d, reader (ofBytes data) = .ok (a, d) := by
  unfold read
  cases reader (ofBytes data) with
  | error fault => simp [Except.map]
  | ok p => simp [Except.map, Prod.ext_iff]

/-! ## Bytes and numbers -/

theorem take_eq_ok_iff {count : Nat} {bytes : Bytes} :
    take count c = .ok (bytes, d) ↔ bytes.length = count ∧ c.Passes bytes d := by
  unfold take
  dsimp only
  split
  · rename_i hlen
    simp only [Except.ok.injEq, Prod.mk.injEq]
    have hpass : c.Passes (c.ahead.take count) (c.skip count (by
        rw [← hlen]; exact List.length_take_le' ..)) :=
      ⟨rfl, congrArg (c.pos + ·) hlen.symm, (List.take_append_drop count c.ahead).symm⟩
    constructor
    · rintro ⟨rfl, rfl⟩
      exact ⟨hlen, hpass⟩
    · rintro ⟨hb, h⟩
      have hfront : c.ahead.take count = bytes := by
        rw [h.ahead, ← hb, List.take_left]
      exact ⟨hfront, hpass.unique (hfront ▸ h)⟩
  · rename_i hlen
    simp only [reduceCtorEq, false_iff, not_and]
    rintro rfl h
    exact hlen (by simp [h.ahead])

/-- A reader that accepts exactly what `encode` writes, whatever comes behind it. -/
def Inverts (reader : Reader α) (encode : α → Bytes) : Prop :=
  ∀ c a d, reader c = .ok (a, d) ↔ c.Passes (encode a) d

theorem Inverts.return_eq_ok_iff {reader : Reader α} {encode : α → Bytes}
    (h : reader.Inverts encode) (f : α → β) {b : β} :
    (do return f (← reader) : Reader β) c = .ok (b, d) ↔ ∃ a, b = f a ∧ c.Passes (encode a) d := by
  simp only [bind_eq_ok_iff, pure_eq_ok_iff]
  constructor
  · intro hb
    rcases hb with ⟨a, m, ha, rfl, rfl⟩
    exact ⟨a, rfl, (h c a _).1 ha⟩
  · intro hb
    rcases hb with ⟨a, rfl, hpass⟩
    exact ⟨a, d, (h c a d).2 hpass, rfl, rfl⟩

theorem u8_inverts : u8.Inverts fun value => [value] := by
  intro c value d
  simp only [u8, bind_eq_ok_iff, take_eq_ok_iff, pure_eq_ok_iff]
  constructor
  · rintro ⟨bytes, m, ⟨hlen, h⟩, rfl, rfl⟩
    obtain ⟨byte, rfl⟩ := List.length_eq_one_iff.1 hlen
    simpa [BigEndian.toNat] using h
  · intro h
    exact ⟨[value], d, ⟨rfl, h⟩, by simp [BigEndian.toNat], rfl⟩

private theorem number_inverts {count : Nat} (ofNat : Nat → α) (encode : α → Bytes)
    (hlen : ∀ a, (encode a).length = count)
    (hread : ∀ bytes, bytes.length = count → encode (ofNat (BigEndian.toNat bytes)) = bytes)
    (hback : ∀ a, ofNat (BigEndian.toNat (encode a)) = a) :
    Inverts (do return ofNat (BigEndian.toNat (← take count))) encode := by
  intro c a d
  simp only [bind_eq_ok_iff, take_eq_ok_iff, pure_eq_ok_iff]
  constructor
  · rintro ⟨bytes, m, ⟨hb, h⟩, rfl, rfl⟩
    rwa [hread bytes hb]
  · intro h
    exact ⟨encode a, d, ⟨hlen a, h⟩, (hback a).symm, rfl⟩

theorem u16_inverts : u16.Inverts bytes16 := by
  apply number_inverts UInt16.ofNat bytes16 length_bytes16
  · intro bytes hb
    have hlt := BigEndian.toNat_lt bytes
    rw [hb] at hlt
    rw [bytes16, UInt16.toNat_ofNat_of_lt' hlt, ← hb, BigEndian.ofNat_toNat]
  · intro a
    rw [toNat_bytes16, UInt16.ofNat_toNat]

theorem u32_inverts : u32.Inverts bytes32 := by
  apply number_inverts UInt32.ofNat bytes32 length_bytes32
  · intro bytes hb
    have hlt := BigEndian.toNat_lt bytes
    rw [hb] at hlt
    rw [bytes32, UInt32.toNat_ofNat_of_lt' hlt, ← hb, BigEndian.ofNat_toNat]
  · intro a
    rw [toNat_bytes32, UInt32.ofNat_toNat]

theorem u64_inverts : u64.Inverts bytes64 := by
  apply number_inverts UInt64.ofNat bytes64 length_bytes64
  · intro bytes hb
    have hlt := BigEndian.toNat_lt bytes
    rw [hb] at hlt
    rw [bytes64, UInt64.toNat_ofNat_of_lt' hlt, ← hb, BigEndian.ofNat_toNat]
  · intro a
    rw [toNat_bytes64, UInt64.ofNat_toNat]

/-- A reader whose values are renamed one to one. -/
theorem Inverts.rename {reader : Reader α} {encode : α → Bytes} (h : reader.Inverts encode)
    (f : α → β) (g : β → α) (hgf : ∀ a, g (f a) = a) (hfg : ∀ b, f (g b) = b) :
    Inverts (do return f (← reader)) fun b => encode (g b) := by
  intro c b d
  rw [h.return_eq_ok_iff]
  constructor
  · intro hb
    rcases hb with ⟨a, rfl, hpass⟩
    dsimp only
    rwa [hgf]
  · intro hpass
    exact ⟨g b, (hfg b).symm, hpass⟩

theorem i8_inverts : i8.Inverts fun value => [value.toUInt8] :=
  u8_inverts.rename UInt8.toInt8 Int8.toUInt8 (fun _ => rfl) fun _ => rfl

theorem i16_inverts : i16.Inverts fun value => bytes16 value.toUInt16 :=
  u16_inverts.rename UInt16.toInt16 Int16.toUInt16 (fun _ => rfl) fun _ => rfl

theorem i32_inverts : i32.Inverts fun value => bytes32 value.toUInt32 :=
  u32_inverts.rename UInt32.toInt32 Int32.toUInt32 (fun _ => rfl) fun _ => rfl

theorem i64_inverts : i64.Inverts fun value => bytes64 value.toUInt64 :=
  u64_inverts.rename UInt64.toInt64 Int64.toUInt64 (fun _ => rfl) fun _ => rfl

theorem u8_eq_ok_iff {value : UInt8} : u8 c = .ok (value, d) ↔ c.Passes [value] d :=
  u8_inverts c value d

theorem u16_eq_ok_iff {value : UInt16} : u16 c = .ok (value, d) ↔ c.Passes (bytes16 value) d :=
  u16_inverts c value d

theorem u32_eq_ok_iff {value : UInt32} : u32 c = .ok (value, d) ↔ c.Passes (bytes32 value) d :=
  u32_inverts c value d

theorem i8_eq_ok_iff {value : Int8} : i8 c = .ok (value, d) ↔ c.Passes [value.toUInt8] d :=
  i8_inverts c value d

theorem i16_eq_ok_iff {value : Int16} :
    i16 c = .ok (value, d) ↔ c.Passes (bytes16 value.toUInt16) d :=
  i16_inverts c value d

theorem i32_eq_ok_iff {value : Int32} :
    i32 c = .ok (value, d) ↔ c.Passes (bytes32 value.toUInt32) d :=
  i32_inverts c value d

theorem u64_eq_ok_iff {value : UInt64} : u64 c = .ok (value, d) ↔ c.Passes (bytes64 value) d :=
  u64_inverts c value d

theorem i64_eq_ok_iff {value : Int64} :
    i64 c = .ok (value, d) ↔ c.Passes (bytes64 value.toUInt64) d :=
  i64_inverts c value d

/-- Padding bytes may hold anything. -/
theorem align_eq_ok_iff {alignment : Nat} {u : Unit} :
    align alignment c = .ok (u, d) ↔
      ∃ bytes, bytes.length = padding alignment c.pos ∧ c.Passes bytes d := by
  simp only [align, advance, bind_eq_ok_iff, get_eq_ok_iff, take_eq_ok_iff, pure_eq_ok_iff,
    true_and]
  constructor
  · rintro ⟨_, _, ⟨rfl, rfl⟩, bytes, m, h, rfl⟩
    exact ⟨bytes, h⟩
  · rintro ⟨bytes, h⟩
    exact ⟨c, c, ⟨rfl, rfl⟩, bytes, d, h, rfl⟩

@[simp] theorem finish_eq_ok_iff {trailing : Nat → Defect} {u : Unit} :
    finish trailing c = .ok (u, d) ↔ c.ahead = [] ∧ d = c := by
  unfold finish Cursor.hasMore
  cases c.ahead with
  | nil => simp [eq_comm]
  | cons byte rest => simp

/-! ## Repetition -/

/-- `reader` yields `items` one after the other. -/
def Yields (reader : Reader α) : Cursor → List α → Cursor → Prop
  | c, [], d => d = c
  | c, item :: rest, d => ∃ m, reader c = .ok (item, m) ∧ Yields reader m rest d

theorem many_eq_ok_iff {reader : Reader α} {count : Nat} {items : List α} :
    reader.many count c = .ok (items, d) ↔ items.length = count ∧ reader.Yields c items d := by
  suffices h : ∀ found, many.go reader count found c = .ok (items, d) ↔
      ∃ rest, items = found.reverse ++ rest ∧ rest.length = count ∧ reader.Yields c rest d by
    simpa [many] using h []
  induction count generalizing c with
  | zero =>
      intro found
      simp only [many.go, pure_eq_ok_iff]
      constructor
      · rintro ⟨rfl, rfl⟩
        exact ⟨[], by simp, rfl, rfl⟩
      · rintro ⟨rest, rfl, hlen, h⟩
        obtain rfl := List.eq_nil_of_length_eq_zero hlen
        exact ⟨by simp, h⟩
  | succ count ih =>
      intro found
      simp only [many.go, bind_eq_ok_iff, ih]
      constructor
      · rintro ⟨item, m, hitem, rest, rfl, hlen, h⟩
        exact ⟨item :: rest, by simp, by simp [hlen], m, hitem, h⟩
      · rintro ⟨rest, rfl, hlen, h⟩
        cases rest with
        | nil => simp at hlen
        | cons item rest =>
            rcases h with ⟨m, hitem, h⟩
            exact ⟨item, m, hitem, rest, by simp, by simpa using hlen, h⟩

/-- The same for a reader that accepts only some of what `encode` writes. -/
def InvertsOn (reader : Reader α) (valid : α → Prop) (encode : α → Bytes) : Prop :=
  ∀ c a d, reader c = .ok (a, d) ↔ valid a ∧ c.Passes (encode a) d

theorem InvertsOn.yields_iff {reader : Reader α} {valid : α → Prop} {encode : α → Bytes}
    (h : reader.InvertsOn valid encode) {items : List α} :
    reader.Yields c items d ↔
      (∀ item ∈ items, valid item) ∧ c.Passes (items.flatMap encode) d := by
  induction items generalizing c with
  | nil => simp [Yields]
  | cons item rest ih =>
      simp only [Yields, List.flatMap_cons, passes_append_iff, h c item, ih,
        List.forall_mem_cons]
      constructor
      · intro hy
        rcases hy with ⟨m, ⟨hitem, hm⟩, hrest, hd⟩
        exact ⟨⟨hitem, hrest⟩, m, hm, hd⟩
      · intro hy
        rcases hy with ⟨⟨hitem, hrest⟩, m, hm, hd⟩
        exact ⟨m, ⟨hitem, hm⟩, hrest, hd⟩

theorem InvertsOn.many_eq_ok_iff {reader : Reader α} {valid : α → Prop} {encode : α → Bytes}
    (h : reader.InvertsOn valid encode) {count : Nat} {items : List α} :
    reader.many count c = .ok (items, d) ↔ items.length = count ∧
      (∀ item ∈ items, valid item) ∧ c.Passes (items.flatMap encode) d := by
  rw [Reader.many_eq_ok_iff, h.yields_iff]

theorem Inverts.yields_iff {reader : Reader α} {encode : α → Bytes} (h : reader.Inverts encode)
    {items : List α} : reader.Yields c items d ↔ c.Passes (items.flatMap encode) d := by
  have hon : reader.InvertsOn (fun _ => True) encode := by
    intro c a d
    rw [true_and]
    exact h c a d
  rw [hon.yields_iff]
  simp

theorem Inverts.many_eq_ok_iff {reader : Reader α} {encode : α → Bytes}
    (h : reader.Inverts encode) {count : Nat} {items : List α} :
    reader.many count c = .ok (items, d) ↔
      items.length = count ∧ c.Passes (items.flatMap encode) d := by
  rw [Reader.many_eq_ok_iff, h.yields_iff]

end Reader

end CallProbe
