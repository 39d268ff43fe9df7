import CallProbe.Instruction.Opcode

/-!
# Instruction streams

A method body as a sequence of events: the instructions themselves, the labels that
branches and tables refer to, and the source lines. Calls are symbolic. Operand
forms are close enough to the bytes that a stream nobody has changed gives the same
bytes again.
-/

namespace CallProbe

/-- A place in a stream, named by its offset in the code array the stream was read from. -/
abbrev Label := Nat

structure Call where
  kind : InvokeKind
  owner : String
  name : String
  descriptor : String
  isInterface : Bool
  /-- The pool index the call was read from; none for a call that is new. -/
  poolIndex : Option UInt16
  deriving DecidableEq, Repr

def Call.new (kind : InvokeKind) (owner name descriptor : String) : Call :=
  { kind, owner, name, descriptor, isInterface := kind == .interface, poolIndex := none }

/-- The callee of a call, as it is shown. -/
def Call.callee (call : Call) : String := call.owner ++ "." ++ call.name ++ call.descriptor

/-- An event of an instruction stream. -/
inductive Instruction where
  /-- Marks the place of the next instruction. -/
  | label (label : Label)
  /-- A source line starts at a label. -/
  | line (line : UInt16) (start : Label)
  | simple (opcode : UInt8)
  | push (opcode : UInt8) (value : Int16)
  | newArray (type : UInt8)
  /-- Access to a local variable, with a 16-bit slot if `wide`. -/
  | slot (opcode : UInt8) (index : UInt16) (wide : Bool)
  | increment (index : UInt16) (delta : Int16) (wide : Bool)
  | jump (opcode : UInt8) (target : Label)
  | tableSwitch (default : Label) (low high : Int32) (targets : List Label)
  | lookupSwitch (default : Label) (pairs : List (Int32 × Label))
  | constant (opcode : UInt8) (index : UInt16)
  /-- Loads a string that the pool is given when the stream is encoded. -/
  | loadString (text : String)
  /-- Refers to a field or a class of the pool. -/
  | reference (opcode : UInt8) (index : UInt16)
  | invoke (call : Call)
  | invokeDynamic (index : UInt16)
  | multiNewArray (index : UInt16) (dimensions : UInt8)
  deriving DecidableEq, Repr

namespace Instruction

/-- Whether the event takes no bytes of the code array. -/
def isPseudo : Instruction → Bool
  | label _ | line _ _ => true
  | _ => false

/-- The label that an event marks. -/
def marked? : Instruction → Option Label
  | label name => some name
  | _ => none

/-- The labels that an instruction may branch to. -/
def targets : Instruction → List Label
  | jump _ target => [target]
  | tableSwitch default _ _ targets => default :: targets
  | lookupSwitch default pairs => default :: pairs.map (·.2)
  | _ => []

end Instruction

end CallProbe
