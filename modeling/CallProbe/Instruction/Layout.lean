import CallProbe.Instruction.Basic
import CallProbe.Pool.Symbol
import CallProbe.Bytes.Cursor
import Std.Data.TreeMap

/-!
# Layout of instruction streams

The first half of encoding. Symbolic operands become pool indices, every event gets
its place in the new code array, and every label the place of what follows it.
-/

namespace CallProbe

def Call.member (call : Call) : MemberRef :=
  { owner := call.owner, name := call.name, descriptor := call.descriptor
    isInterface := call.isInterface }

namespace Instruction

/-- Bytes of an instruction at `position`. A loaded string takes the short form where the pool
`index` of the string fits a byte; a switch is padded to a multiple of four. -/
def size (position : Nat) (index : UInt16) : Instruction → Nat
  | label _ | line _ _ => 0
  | simple _ => 1
  | push opcode _ => if opcode = Opcode.bipush then 2 else 3
  | newArray _ => 2
  | slot _ _ wide => if wide then 4 else 2
  | increment _ _ wide => if wide then 6 else 3
  | jump opcode _ => if Opcode.isWideBranch opcode then 5 else 3
  | tableSwitch _ _ _ targets => 1 + Cursor.padding 4 (position + 1) + 12 + 4 * targets.length
  | lookupSwitch _ pairs => 1 + Cursor.padding 4 (position + 1) + 8 + 8 * pairs.length
  | constant opcode _ => if opcode = Opcode.ldc then 2 else 3
  | loadString _ => if index.toNat ≤ 255 then 2 else 3
  | reference _ _ => 3
  | invoke call => if call.kind = .interface then 5 else 3
  | invokeDynamic _ => 5
  | multiNewArray _ _ => 4

/-- The pool index of an instruction's symbolic operand, which is added to the pool if need be;
zero for an instruction without such an operand. -/
def lower : Instruction → Pool.Edit UInt16
  | loadString text => Pool.addString text
  | invoke call =>
    match call.poolIndex with
    | some index => return index
    | none => Pool.addMethodRef call.member
  | _ => return 0

end Instruction

/-- An event at its place in the new code array, with the index of its symbolic operand. -/
structure Placement where
  instruction : Instruction
  position : Nat
  index : UInt16

/-- A stream that is laid out from its start up to some event. -/
structure Layout where
  /-- The events, last one first. -/
  placed : List Placement := []
  labels : Std.TreeMap Nat Nat := ∅
  length : Nat := 0

namespace Layout

/-- The labels after an event; no label has two places. -/
def labelsWith (layout : Layout) : Instruction → Except Fault (Std.TreeMap Nat Nat)
  | .label label =>
    if layout.labels.contains label then .error (.malformed (.labelTwice label))
    else .ok (layout.labels.insert label layout.length)
  | _ => .ok layout.labels

def place (layout : Layout) (instruction : Instruction) : Pool.Edit Layout := do
  let index ← instruction.lower
  let labels ← layout.labelsWith instruction
  let length := layout.length + instruction.size layout.length index
  if maxCodeLength < length then throw (.malformed .codeExceedsLimit)
  return {
    placed := { instruction, position := layout.length, index } :: layout.placed
    labels
    length }

def ofStream (stream : List Instruction) : Pool.Edit Layout := stream.foldlM place {}

end Layout

end CallProbe
