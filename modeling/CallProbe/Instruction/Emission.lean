import CallProbe.Descriptor.Parser
import CallProbe.Instruction.Layout

/-!
# Writing instruction streams

The second half of encoding. Every event of a layout is written in turn; branches
look up the places of their labels.
-/

namespace CallProbe

def placeOf (labels : Std.TreeMap Nat Nat) (label : Label) : Except Fault Nat :=
  match labels[label]? with
  | some place => .ok place
  | none => .error (.malformed (.labelUnplaced label))

/-- The 16-bit distance of a branch. -/
def shortDistance (labels : Std.TreeMap Nat Nat) (position : Nat) (target : Label) :
    Except Fault Bytes := do
  let place ← placeOf labels target
  let distance : Int := (place : Int) - position
  if -32768 ≤ distance ∧ distance ≤ 32767 then
    return bytes16 (Int16.ofInt distance).toUInt16
  else throw (.branchOverflow position place)

/-- The 32-bit distance of a branch. No code array is long enough for it not to fit. -/
def longDistance (labels : Std.TreeMap Nat Nat) (position : Nat) (target : Label) :
    Except Fault Bytes := do
  let place ← placeOf labels target
  return bytes32 (Int32.ofInt ((place : Int) - position)).toUInt32

/-- The bytes between a switch and its operands, with `written` bytes before the switch. -/
def switchPadding (written : Nat) : Bytes := List.replicate (Cursor.padding 4 (written + 1)) 0

namespace Instruction

/-- The operand of an instruction whose operand is one byte, if it fits. -/
def byteOperand (value : UInt16) (defect : Defect) : Except Fault Bytes :=
  if value.toNat ≤ 255 then .ok [value.toUInt8] else .error (.malformed defect)

/-- The bytes of a call through the pool index of its method. -/
def callBytes (call : Call) (index : UInt16) : Except Fault Bytes := do
  let invocation := call.kind.opcode :: bytes16 index
  if call.kind = .interface then
    let slots := (← MethodDescriptor.parse call.descriptor).argumentSlots + 1
    if 255 < slots then throw (.malformed (.tooManyArguments call.descriptor))
    return invocation ++ [UInt8.ofNat slots, 0]
  else return invocation

/-- The bytes of an instruction at `position` in the layout, behind `written` bytes. -/
def bytes (labels : Std.TreeMap Nat Nat) (written position : Nat) (index : UInt16) :
    Instruction → Except Fault Bytes
  | label _ | line _ _ => return []
  | simple opcode => return [opcode]
  | push opcode value =>
    if opcode = Opcode.bipush then
      if -128 ≤ value.toInt ∧ value.toInt ≤ 127 then return [opcode, value.toInt8.toUInt8]
      else throw (.malformed (.byteOperand value))
    else return opcode :: bytes16 value.toUInt16
  | newArray type => return [Opcode.newArray, type]
  | slot opcode index wide =>
    if wide then return Opcode.wide :: opcode :: bytes16 index
    else return opcode :: (← byteOperand index (.wideLocal index))
  | increment index delta wide =>
    if wide then
      return Opcode.wide :: Opcode.iinc :: bytes16 index ++ bytes16 delta.toUInt16
    else if index.toNat ≤ 255 ∧ -128 ≤ delta.toInt ∧ delta.toInt ≤ 127 then
      return [Opcode.iinc, index.toUInt8, delta.toInt8.toUInt8]
    else throw (.malformed (.wideIncrement index delta))
  | jump opcode target =>
    if Opcode.isWideBranch opcode then
      return opcode :: (← longDistance labels position target)
    else return opcode :: (← shortDistance labels position target)
  | tableSwitch default low high targets => do
    let default ← longDistance labels position default
    let targets ← targets.mapM (longDistance labels position)
    return Opcode.tableSwitch :: switchPadding written ++ default
      ++ bytes32 low.toUInt32 ++ bytes32 high.toUInt32 ++ targets.flatten
  | lookupSwitch default pairs => do
    let default ← longDistance labels position default
    let entries ← pairs.mapM fun (key, target) =>
      return bytes32 key.toUInt32 ++ (← longDistance labels position target)
    return Opcode.lookupSwitch :: switchPadding written ++ default
      ++ bytes32 (UInt32.ofNat pairs.length) ++ entries.flatten
  | constant opcode index =>
    if opcode = Opcode.ldc then return opcode :: (← byteOperand index (.shortConstant index))
    else return opcode :: bytes16 index
  | loadString _ =>
    if index.toNat ≤ 255 then return [Opcode.ldc, index.toUInt8]
    else return Opcode.ldcWide :: bytes16 index
  | reference opcode index => return opcode :: bytes16 index
  | invoke call => callBytes call index
  | invokeDynamic index => return Opcode.invokeDynamic :: bytes16 index ++ bytes16 0
  | multiNewArray index dimensions =>
    return Opcode.multiNewArray :: bytes16 index ++ [dimensions]

end Instruction

/-- Writes an event behind what was written before it. -/
def Placement.emit (labels : Std.TreeMap Nat Nat) (written : Array UInt8)
    (placement : Placement) : Except Fault (Array UInt8) := do
  return written
    ++ (← placement.instruction.bytes labels written.size placement.position placement.index)

def Layout.emit (layout : Layout) : Except Fault Bytes := do
  return (← layout.placed.reverse.foldlM (Placement.emit layout.labels) #[]).toList

/-- A code array and the new place of every label of its stream. -/
structure EncodedCode where
  code : Bytes
  offsets : Std.TreeMap Nat Nat

/-- Encodes a stream; strings and new calls are added to the pool. -/
def encodeStream (stream : List Instruction) : Pool.Edit EncodedCode := do
  let layout ← Layout.ofStream stream
  let code ← layout.emit
  return { code, offsets := layout.labels }

end CallProbe
