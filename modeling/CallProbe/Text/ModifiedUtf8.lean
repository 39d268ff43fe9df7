import CallProbe.Fault
import CallProbe.Bytes.BigEndian
import CallProbe.Text.Utf16

/-!
# Modified UTF-8

The text form of class files. Every UTF-16 unit is written on its own with one to
three bytes; the unit zero takes two, so that no byte of a text is zero, and a
surrogate takes three. The decoder accepts longer forms than needed.
-/

namespace CallProbe.ModifiedUtf8

/-- The shortest form of one unit. -/
def encodeUnit (unit : UInt16) : Bytes :=
  let n := unit.toNat
  if 1 ≤ n ∧ n ≤ 0x7F then [UInt8.ofNat n]
  else if n ≤ 0x7FF then [UInt8.ofNat (0xC0 + n / 64), UInt8.ofNat (0x80 + n % 64)]
  else
    [UInt8.ofNat (0xE0 + n / 4096), UInt8.ofNat (0x80 + n / 64 % 64), UInt8.ofNat (0x80 + n % 64)]

/-- Number of bytes of the shortest form. -/
def unitLength (unit : UInt16) : Nat :=
  let n := unit.toNat
  if 1 ≤ n ∧ n ≤ 0x7F then 1 else if n ≤ 0x7FF then 2 else 3

theorem length_encodeUnit (unit : UInt16) : (encodeUnit unit).length = unitLength unit := by
  simp only [encodeUnit, unitLength]
  split
  · rfl
  · split <;> rfl

def encode (s : String) : Bytes := (Utf16.ofString s).flatMap encodeUnit

/-- Number of bytes `encode` writes, without writing them. -/
def encodedLength (s : String) : Nat :=
  (Utf16.ofString s).foldl (fun length unit => length + unitLength unit) 0

/-- Counting a text's bytes agrees with writing them. -/
theorem length_encode (s : String) : (encode s).length = encodedLength s := by
  have counted (units : List UInt16) (start : Nat) :
      units.foldl (fun length unit => length + unitLength unit) start
        = start + (units.flatMap encodeUnit).length := by
    induction units generalizing start with
    | nil => rfl
    | cons unit units ih =>
      rw [List.foldl_cons, ih, List.flatMap_cons, List.length_append, length_encodeUnit]
      omega
  rw [encode, encodedLength, counted, Nat.zero_add]

/-! ## Decoding -/

/-- The six bits of the continuation byte at `position`. -/
def continuation (position : Nat) (byte : UInt8) : Except Fault Nat :=
  if byte.toNat / 64 = 2 then .ok (byte.toNat % 64)
  else .error (.malformed (.utf8Continuation byte position))

/-- The units that `bytes` spell, after those already `found`; `position` counts the bytes
before them. -/
def unitsAfter (found : List UInt16) (position : Nat) : Bytes → Except Fault (List UInt16)
  | [] => .ok found.reverse
  | first :: rest =>
    let n := first.toNat
    if 0x01 ≤ n ∧ n ≤ 0x7F then unitsAfter (UInt16.ofNat n :: found) (position + 1) rest
    else if 0xC0 ≤ n ∧ n ≤ 0xDF then
      match rest with
      | [] => .error (.malformed .utf8Truncated)
      | second :: rest => do
        let low ← continuation (position + 1) second
        unitsAfter (UInt16.ofNat (n % 32 * 64 + low) :: found) (position + 2) rest
    else if 0xE0 ≤ n ∧ n ≤ 0xEF then
      match rest with
      | [] => .error (.malformed .utf8Truncated)
      | second :: rest => do
        let middle ← continuation (position + 1) second
        match rest with
        | [] => .error (.malformed .utf8Truncated)
        | third :: rest => do
          let low ← continuation (position + 2) third
          unitsAfter (UInt16.ofNat (n % 16 * 4096 + middle * 64 + low) :: found) (position + 3)
            rest
    else .error (.malformed (.utf8Byte first position))

/-- The units that `bytes` spell; surrogates need not be paired. -/
def decodeUnits (bytes : Bytes) : Except Fault (List UInt16) := unitsAfter [] 0 bytes

def decode (bytes : Bytes) : Except Fault String := do
  match Utf16.toString? (← decodeUnits bytes) with
  | some text => .ok text
  | none => .error (.malformed .unpairedSurrogate)

end CallProbe.ModifiedUtf8
