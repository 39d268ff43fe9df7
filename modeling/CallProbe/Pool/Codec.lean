import CallProbe.Pool.Basic

/-!
# Stored pools

A stored pool is its slot count followed by the constants. What follows the last
constant belongs to someone else.
-/

namespace CallProbe.Pool

def encode (pool : Pool) : Bytes :=
  bytes16 pool.count ++ pool.constants.flatMap Constant.encode

/-- Reads constants until `left` more slots are filled; `count` is the slot count stated in
front. -/
def fill (count : Nat) : Nat → Pool → Reader Pool
  | 0, pool => return pool
  | left + 1, pool => do
    let constant ← Constant.reader
    if constant.slots = 2 then
      match left with
      | 0 => throw (.malformed (.wideConstant pool.slots count))
      | left + 1 => fill count left (pool.append constant)
    else fill count left (pool.append constant)

def reader : Reader Pool := do
  let count := (← Reader.u16).toNat
  if count = 0 then throw (.malformed .poolCountZero)
  fill count (count - 1) new

/-- The pool at the start of `data`. -/
def ofBytes (data : Bytes) : Except Fault Pool := reader.read data

end CallProbe.Pool
