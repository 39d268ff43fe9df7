/-!
# Big-endian numbers

Every number of a class file is stored with its most significant byte first. A
byte sequence of any length is read as a natural number, and of a natural number as
many of the lowest bytes are written as asked for.
-/

namespace CallProbe

/-- A sequence of bytes, first byte first. -/
abbrev Bytes := List UInt8

namespace BigEndian

/-- The number a byte sequence stands for. -/
def toNat (bytes : Bytes) : Nat :=
  bytes.foldl (fun high byte => high * 256 + byte.toNat) 0

/-- The last `width` bytes of a number. -/
def ofNat : Nat → Nat → Bytes
  | 0, _ => []
  | width + 1, n => ofNat width (n / 256) ++ [UInt8.ofNat n]

@[simp] theorem length_ofNat (width n : Nat) : (ofNat width n).length = width := by
  induction width generalizing n with
  | zero => rfl
  | succ width ih => simp [ofNat, ih]

@[simp] theorem toNat_nil : toNat [] = 0 := rfl

theorem toNat_append_singleton (bytes : Bytes) (byte : UInt8) :
    toNat (bytes ++ [byte]) = toNat bytes * 256 + byte.toNat := by
  simp [toNat]

theorem toNat_ofNat_zero (n : Nat) : toNat (ofNat 0 n) = 0 := rfl

/-- Writing splits off the lowest byte, and reading puts it back. -/
theorem toNat_ofNat_succ (width n : Nat) :
    toNat (ofNat (width + 1) n) = toNat (ofNat width (n / 256)) * 256 + n % 256 := by
  rw [ofNat, toNat_append_singleton]
  simp

end BigEndian

def bytes16 (value : UInt16) : Bytes := BigEndian.ofNat 2 value.toNat

def bytes32 (value : UInt32) : Bytes := BigEndian.ofNat 4 value.toNat

def bytes64 (value : UInt64) : Bytes := BigEndian.ofNat 8 value.toNat

@[simp] theorem length_bytes16 (value : UInt16) : (bytes16 value).length = 2 := by
  simp [bytes16]

@[simp] theorem length_bytes32 (value : UInt32) : (bytes32 value).length = 4 := by
  simp [bytes32]

@[simp] theorem length_bytes64 (value : UInt64) : (bytes64 value).length = 8 := by
  simp [bytes64]

/-! Reading what was written gives the number back. -/

theorem toNat_bytes16 (value : UInt16) : BigEndian.toNat (bytes16 value) = value.toNat := by
  have fits : value.toNat < 65536 := value.toNat_lt
  simp only [bytes16, BigEndian.toNat_ofNat_succ, BigEndian.toNat_ofNat_zero]
  omega

theorem toNat_bytes32 (value : UInt32) : BigEndian.toNat (bytes32 value) = value.toNat := by
  have fits : value.toNat < 4294967296 := value.toNat_lt
  simp only [bytes32, BigEndian.toNat_ofNat_succ, BigEndian.toNat_ofNat_zero]
  omega

theorem toNat_bytes64 (value : UInt64) : BigEndian.toNat (bytes64 value) = value.toNat := by
  have fits : value.toNat < 18446744073709551616 := value.toNat_lt
  simp only [bytes64, BigEndian.toNat_ofNat_succ, BigEndian.toNat_ofNat_zero]
  omega

end CallProbe
