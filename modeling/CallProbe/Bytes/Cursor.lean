import CallProbe.Fault
import CallProbe.Bytes.BigEndian

/-!
# A cursor over bytes

A position within a fixed byte sequence, with the bytes ahead of it kept at hand.
A `Reader` is a computation that moves a cursor or fails; a failing reader leaves
nothing behind, so its caller still holds the cursor it started from.
-/

namespace CallProbe

/-- A position in `data`; `ahead` is what lies after it. -/
structure Cursor where
  data : Bytes
  pos : Nat
  ahead : Bytes
  ahead_eq : ahead = data.drop pos
  pos_le : pos ≤ data.length

namespace Cursor

/-- A cursor before the first byte. -/
def ofBytes (data : Bytes) : Cursor :=
  { data, pos := 0, ahead := data, ahead_eq := rfl, pos_le := Nat.zero_le _ }

def length (c : Cursor) : Nat := c.data.length

def remaining (c : Cursor) : Nat := c.ahead.length

def hasMore (c : Cursor) : Bool := !c.ahead.isEmpty

theorem remaining_eq (c : Cursor) : c.remaining = c.length - c.pos := by
  simp [remaining, length, c.ahead_eq]

/-- The cursor `count` bytes further on. -/
def skip (c : Cursor) (count : Nat) (within : count ≤ c.ahead.length) : Cursor where
  data := c.data
  pos := c.pos + count
  ahead := c.ahead.drop count
  ahead_eq := by rw [c.ahead_eq, List.drop_drop]
  pos_le := by
    have := c.pos_le
    rw [c.ahead_eq, List.length_drop] at within
    omega

@[ext] theorem ext {c d : Cursor} (data : c.data = d.data) (pos : c.pos = d.pos) : c = d := by
  obtain ⟨_, _, _, hc, _⟩ := c
  obtain ⟨_, _, _, hd, _⟩ := d
  cases data; cases pos; cases hc; cases hd; rfl

/-- The cursor at `pos`; the end of the data is a position too. -/
def seek (c : Cursor) (pos : Nat) : Except Fault Cursor :=
  if h : pos ≤ c.data.length then
    .ok { data := c.data, pos, ahead := c.data.drop pos, ahead_eq := rfl, pos_le := h }
  else .error .outOfBounds

/-- The next byte, which stays ahead. -/
def peek (c : Cursor) : Except Fault UInt8 :=
  match c.ahead with
  | [] => .error .outOfBounds
  | byte :: _ => .ok byte

/-- Bytes up to the next multiple of `alignment`. -/
def padding (alignment pos : Nat) : Nat := (alignment - pos % alignment) % alignment

end Cursor

/-- A computation that moves a cursor. -/
abbrev Reader (α : Type) := StateT Cursor (Except Fault) α

namespace Reader

/-- The next `count` bytes. Only as much of the rest is looked at as is asked for. -/
def take (count : Nat) : Reader Bytes := fun c =>
  let bytes := c.ahead.take count
  if h : bytes.length = count then
    .ok (bytes, c.skip count (by rw [← h]; exact List.length_take_le' ..))
  else .error .outOfBounds

def advance (count : Nat) : Reader Unit := do
  let _ ← take count

/-- Moves to the next multiple of `alignment`. -/
def align (alignment : Nat) : Reader Unit := do
  advance (Cursor.padding alignment (← get).pos)

def u8 : Reader UInt8 := return UInt8.ofNat (BigEndian.toNat (← take 1))
def u16 : Reader UInt16 := return UInt16.ofNat (BigEndian.toNat (← take 2))
def u32 : Reader UInt32 := return UInt32.ofNat (BigEndian.toNat (← take 4))
def u64 : Reader UInt64 := return UInt64.ofNat (BigEndian.toNat (← take 8))
def i8 : Reader Int8 := return (← u8).toInt8
def i16 : Reader Int16 := return (← u16).toInt16
def i32 : Reader Int32 := return (← u32).toInt32
def i64 : Reader Int64 := return (← u64).toInt64

/-- What `reader` yields `count` times in a row. -/
def many {α : Type} (reader : Reader α) (count : Nat) : Reader (List α) :=
  go count []
where
  go : Nat → List α → Reader (List α)
    | 0, found => return found.reverse
    | count + 1, found => do
      let item ← reader
      go count (item :: found)

/-- Fails unless everything was read. -/
def finish (trailing : Nat → Defect) : Reader Unit := fun c =>
  if c.hasMore then .error (.malformed (trailing c.remaining)) else .ok ((), c)

/-- Runs a reader from the start of `data`; what it leaves unread is ignored. -/
def read {α : Type} (reader : Reader α) (data : Bytes) : Except Fault α :=
  (reader (Cursor.ofBytes data)).map (·.1)

end Reader

/-! ## Single steps -/

/-- The integer formats a cursor can read. -/
inductive IntFormat where
  | u8 | i8 | u16 | i16 | u32 | i32 | u64 | i64
  deriving DecidableEq, Repr

namespace IntFormat

def width : IntFormat → Nat
  | u8 | i8 => 1
  | u16 | i16 => 2
  | u32 | i32 => 4
  | u64 | i64 => 8

/-- Reads the big-endian, possibly two's complement number of the format. -/
def reader : IntFormat → Reader Int
  | u8 => return (← Reader.u8).toNat
  | i8 => return (← Reader.i8).toInt
  | u16 => return (← Reader.u16).toNat
  | i16 => return (← Reader.i16).toInt
  | u32 => return (← Reader.u32).toNat
  | i32 => return (← Reader.i32).toInt
  | u64 => return (← Reader.u64).toNat
  | i64 => return (← Reader.i64).toInt

end IntFormat

namespace Cursor

/-- A single request to a cursor. -/
inductive Request where
  | integer (format : IntFormat)
  | bytes (count : Nat)
  | seek (pos : Nat)
  | advance (count : Nat)
  | align (alignment : Nat)
  | peek

inductive Answer where
  | integer (value : Int)
  | bytes (value : Bytes)
  | moved

def Request.reader : Request → Reader Answer
  | .integer format => return .integer (← format.reader)
  | .bytes count => return .bytes (← Reader.take count)
  | .seek pos => fun c => (c.seek pos).map (.moved, ·)
  | .advance count => do Reader.advance count; return .moved
  | .align alignment => do Reader.align alignment; return .moved
  | .peek => fun c => c.peek.map fun byte => (.integer byte.toNat, c)

/-- Performs a request; after a failure the cursor stands where it stood. -/
def perform (c : Cursor) (request : Request) : Except Fault Answer × Cursor :=
  match request.reader c with
  | .ok (answer, next) => (.ok answer, next)
  | .error fault => (.error fault, c)

end Cursor

end CallProbe
