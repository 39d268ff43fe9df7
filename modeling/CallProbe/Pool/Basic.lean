import Std.Data.HashMap
import CallProbe.Pool.Constant

/-!
# Constant pools

A pool is a table of slots. Slot zero holds nothing, and so does the slot behind a
two-slot constant. New constants go to the end, so an index keeps its meaning for
good; a constant that is already present is found through `lookup`, which knows
the first index of every constant.
-/

namespace CallProbe

/-- A table of constants and the first index of each. -/
structure Pool where
  entries : Array (Option Constant) := #[]
  lookup : Std.HashMap Constant UInt16 := ∅

namespace Pool

/-- Highest number of slots, slot zero included. -/
def maxSlots : Nat := 65535

/-- A pool without any slot, not even slot zero. -/
def empty : Pool := {}

/-- A pool with nothing but the unused slot zero. -/
def new : Pool := { entries := #[none] }

def slots (pool : Pool) : Nat := pool.entries.size

/-- Number of slots as the class file states it. -/
def count (pool : Pool) : UInt16 := UInt16.ofNat pool.slots

def constants (pool : Pool) : List Constant := pool.entries.toList.filterMap id

def length (pool : Pool) : Nat := pool.constants.length

def get? (pool : Pool) (index : UInt16) : Option Constant :=
  pool.entries[index.toNat]?.join

/-- The constant at an index; an unused slot is no constant. -/
def get (pool : Pool) (index : UInt16) : Except Fault Constant :=
  match pool.get? index with
  | some constant => .ok constant
  | none => .error (.constantPoolIndex index)

/-- Puts a constant behind all others. -/
def append (pool : Pool) (constant : Constant) : Pool :=
  let index := UInt16.ofNat pool.entries.size
  let entries := pool.entries.push (some constant)
  { entries := if constant.slots = 2 then entries.push none else entries
    lookup := pool.lookup.insertIfNew constant index }

/-- A computation that changes a pool. What it did before a failure stays done. -/
abbrev Edit (α : Type) := ExceptT Fault (StateM Pool) α

/-- The index of a constant, which is appended unless it is present. -/
def add (constant : Constant) : Edit UInt16 := fun pool =>
  match pool.lookup[constant]? with
  | some index => (.ok index, pool)
  | none =>
    let length := constant.textLength
    if maxTextLength < length then (.error (.malformed (.utf8TooLong length)), pool)
    else if maxSlots < pool.entries.size + constant.slots then (.error .constantPoolOverflow, pool)
    else
      let index := UInt16.ofNat pool.entries.size
      (.ok index, pool.append constant)

end Pool

end CallProbe
