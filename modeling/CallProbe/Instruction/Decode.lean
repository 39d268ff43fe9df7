import CallProbe.Descriptor.Parser
import CallProbe.Instruction.Basic
import CallProbe.MethodBody.Basic
import CallProbe.Pool.Symbol
import Std.Data.TreeMap

/-!
# Reading instruction streams

The code array is cut into instructions first. Every offset that a branch, a handler
or a nested attribute refers to then has to be the start of an instruction, or the
end of the code array, and gets a label there. An offset is the position itself, which
is a 32-bit number in any code array of less than 4 GiB.
-/

namespace CallProbe

/-- Highest number of entries of a switch. -/
def maxSwitchEntries : Nat := 0x4000

namespace Instruction

/-- The place a branch at `offset` leads to, in a code array of `size` bytes. -/
def branchTarget (size offset : Nat) (distance : Int32) : Except Fault Label :=
  let target : Int := offset + distance.toInt
  if 0 ≤ target ∧ target < size then .ok target.toNat
  else .error (.malformed (.branchOutside offset target))

/-- Reads a 32-bit distance as the place it leads to. -/
def targetReader (size offset : Nat) : Reader Label := do
  branchTarget size offset (← Reader.i32)

/-- A declared number of switch entries. -/
def switchCount (offset : Nat) (count : Int) : Except Fault Nat :=
  if 0 ≤ count ∧ count ≤ maxSwitchEntries then .ok count.toNat
  else .error (.malformed (.switchCount offset count))

/-- Reads the operands of a call. An interface call states the slots of its arguments once more. -/
def callReader (pool : Pool) (offset : Nat) (kind : InvokeKind) : Reader Instruction := do
  let index ← Reader.u16
  if let .member .field _ _ ← pool.get index then
    throw (.malformed (.fieldInvoked offset index))
  let member ← pool.memberRef index
  if kind = .interface then
    let declared ← Reader.u8
    let _ ← Reader.u8
    let expected := (← MethodDescriptor.parse member.descriptor).argumentSlots + 1
    if declared.toNat ≠ expected then
      throw (.malformed (.interfaceCount offset declared expected))
  return invoke {
    kind
    owner := member.owner
    name := member.name
    descriptor := member.descriptor
    isInterface := member.isInterface
    poolIndex := some index }

/-- Reads the operands of an instruction of twice the width. -/
def widenedReader (offset : Nat) : Reader Instruction := do
  let opcode ← Reader.u8
  match Opcode.operands? opcode with
  | some .slot => return slot opcode (← Reader.u16) true
  | some .increment => return increment (← Reader.u16) (← Reader.i16) true
  | _ => throw (.invalidOpcode opcode (offset + 1))

/-- Reads the operands behind the opcode of the instruction at `offset`. -/
def operandReader (pool : Pool) (size offset : Nat) (opcode : UInt8) :
    Opcode.Operands → Reader Instruction
  | .none => return simple opcode
  | .byteValue => return push opcode (← Reader.i8).toInt16
  | .shortValue => return push opcode (← Reader.i16)
  | .byteConstant => return constant opcode (← Reader.u8).toUInt16
  | .shortConstant => return constant opcode (← Reader.u16)
  | .slot => return slot opcode (← Reader.u8).toUInt16 false
  | .increment => return increment (← Reader.u8).toUInt16 (← Reader.i8).toInt16 false
  | .branch => return jump opcode (← branchTarget size offset (← Reader.i16).toInt32)
  | .wideBranch => return jump opcode (← targetReader size offset)
  | .tableSwitch => do
    Reader.align 4
    let default ← targetReader size offset
    let low ← Reader.i32
    let high ← Reader.i32
    let count ← switchCount offset (high.toInt - low.toInt + 1)
    return tableSwitch default low high (← Reader.many (targetReader size offset) count)
  | .lookupSwitch => do
    Reader.align 4
    let default ← targetReader size offset
    let count ← switchCount offset (← Reader.i32).toInt
    let pair : Reader (Int32 × Label) := return (← Reader.i32, ← targetReader size offset)
    return lookupSwitch default (← pair.many count)
  | .reference => return reference opcode (← Reader.u16)
  | .invoke kind => callReader pool offset kind
  | .invokeDynamic => do
    let index ← Reader.u16
    let _ ← Reader.u16
    return invokeDynamic index
  | .newArray => return newArray (← Reader.u8)
  | .multiNewArray => return multiNewArray (← Reader.u16) (← Reader.u8)
  | .widened => widenedReader offset

/-- Reads an instruction of a code array of `size` bytes. -/
def reader (pool : Pool) (size : Nat) : Reader Instruction := do
  let offset := (← get).pos
  let opcode ← Reader.u8
  match Opcode.operands? opcode with
  | some operands => operandReader pool size offset opcode operands
  | none => throw (.invalidOpcode opcode offset)

/-- Reads instructions with their offsets, behind those already `found`, as long as bytes are
left. An instruction takes at least one byte, so `bytes` bounds their number. -/
def readAfter (pool : Pool) (size : Nat) (found : List (Nat × Instruction)) :
    (bytes : Nat) → Cursor → Except Fault (List (Nat × Instruction))
  | 0, _ => .ok found.reverse
  | bytes + 1, cursor =>
    if cursor.hasMore then do
      let (instruction, next) ← reader pool size cursor
      readAfter pool size ((cursor.pos, instruction) :: found) bytes next
    else .ok found.reverse

/-- The instructions of a code array with their offsets. -/
def readAll (pool : Pool) (code : Bytes) : Except Fault (List (Nat × Instruction)) :=
  readAfter pool code.length [] code.length (Cursor.ofBytes code)

end Instruction

namespace MethodBody

def linesByOffset (body : MethodBody) : Std.TreeMap Nat (List UInt16) :=
  body.lineMarks.foldr
    (fun mark lines =>
      lines.insert mark.start.toNat (mark.line :: lines.getD mark.start.toNat []))
    ∅

/-- The offsets that need a label, given the instructions. -/
def labels (body : MethodBody) (instructions : List (Nat × Instruction)) : Std.TreeSet Nat :=
  .ofList (instructions.flatMap (·.2.targets) ++ body.offsets)

/-- A stream as far as it has been put together, and how many labels were emitted into it. -/
structure Marking where
  events : Array Instruction := #[]
  emitted : Nat := 0

namespace Marking

/-- Adds the label of an offset, if it needs one. -/
def label (marking : Marking) (labels : Std.TreeSet Nat) (offset : Label) : Marking :=
  if labels.contains offset then
    { events := marking.events.push (.label offset), emitted := marking.emitted + 1 }
  else marking

/-- Adds the label and the lines of an instruction, then the instruction. -/
def entry (marking : Marking) (labels : Std.TreeSet Nat) (lines : Std.TreeMap Nat (List UInt16))
    (entry : Nat × Instruction) : Marking :=
  let marked := marking.label labels entry.1
  let lines := (lines.getD entry.1 []).map (Instruction.line · entry.1)
  { marked with events := (marked.events ++ lines).push entry.2 }

/-- All instructions with their marks, and the label of the end. -/
def row (labels : Std.TreeSet Nat) (lines : Std.TreeMap Nat (List UInt16)) (stop : Label)
    (instructions : List (Nat × Instruction)) : Marking :=
  let marking : Marking := instructions.foldl (fun marking => marking.entry labels lines) {}
  marking.label labels stop

/-- The least label that was not emitted. -/
def stray? (marking : Marking) (labels : Std.TreeSet Nat) : Option Label :=
  let emitted : Std.TreeSet Nat := .ofList (marking.events.toList.filterMap Instruction.marked?)
  labels.toList.find? (!emitted.contains ·)

end Marking

/-- The events of a body. No label is emitted twice, so that all have found their place if as many
were emitted as are needed. -/
def stream (body : MethodBody) (pool : Pool) : Except Fault (List Instruction) := do
  let instructions ← Instruction.readAll pool body.code
  let labels := body.labels instructions
  let marking := Marking.row labels body.linesByOffset body.code.length instructions
  if marking.emitted = labels.size then return marking.events.toList
  else throw (.malformed (.notBoundary ((marking.stray? labels).getD body.code.length)))

end MethodBody

end CallProbe
