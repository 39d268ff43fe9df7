import CallProbe.Limits

/-!
# Faults

Every way in which reading, laying out or instrumenting a method can fail. A
`Defect` is a flaw of the data itself; a `Fault` is what an operation reports.
Causes carry their data, the wording is in `Defect.message` and `Fault.message`.
-/

namespace CallProbe

/-- Two upper-case hexadecimal digits. -/
def hexByte (byte : UInt8) : String :=
  let digit (n : Nat) : Char := "0123456789ABCDEF".toList.getD n '0'
  String.ofList [digit (byte.toNat / 16), digit (byte.toNat % 16)]

/-- A flaw in the structure of the data. -/
inductive Defect where
  -- text
  | utf8Byte (byte : UInt8) (position : Nat)
  | utf8Continuation (byte : UInt8) (position : Nat)
  | utf8Truncated
  | unpairedSurrogate
  -- constant pool
  | poolCountZero
  | poolTag (tag : UInt8) (offset : Nat)
  | wideConstant (index count : Nat)
  | constantNotText (index : UInt16)
  | utf8TooLong (bytes : Nat)
  -- stack map
  | verificationTag (tag : UInt8)
  | frameTag (tag : UInt8)
  | frameBeyondCode
  | frameTrailing (bytes : Nat)
  | tooManyFrames
  | frameOrder (offset : UInt16)
  -- method body
  | codeLength (length : Nat)
  | nestedTrailing (name : String) (bytes : Nat)
  | bodyTrailing (bytes : Nat)
  | tableTooLarge (entries : Nat)
  | codeTooLarge
  | nestedTooLarge
  | noRelocation (offset : UInt16)
  | relocationTooFar (offset : Nat)
  | variableRange
  -- instructions
  | notBoundary (offset : Nat)
  | branchOutside (offset : Nat) (target : Int)
  | switchCount (offset : Nat) (count : Int)
  | fieldInvoked (offset : Nat) (index : UInt16)
  | interfaceCount (offset : Nat) (declared : UInt8) (expected : Nat)
  | labelTwice (label : Nat)
  | labelUnplaced (label : Nat)
  | codeExceedsLimit
  | byteOperand (value : Int16)
  | wideLocal (index : UInt16)
  | wideIncrement (index : UInt16) (delta : Int16)
  | shortConstant (index : UInt16)
  | tooManyArguments (descriptor : String)
  -- catalogue and methods
  | candidateParameters (candidate : String) (required : Nat)
  | candidateCorrelation (candidate : String)
  | bodylessWithCode (method : String)
  deriving DecidableEq, Repr

def Defect.message : Defect → String
  | .utf8Byte byte position => s!"Invalid modified UTF-8 byte 0x{hexByte byte} at {position}"
  | .utf8Continuation byte position =>
      s!"Invalid continuation byte 0x{hexByte byte} at {position}"
  | .utf8Truncated => "Truncated modified UTF-8 sequence"
  | .unpairedSurrogate => "Unpaired surrogate in modified UTF-8"
  | .poolCountZero => "Constant pool count must be at least 1"
  | .poolTag tag offset => s!"Unknown constant pool tag {tag} at offset {offset}"
  | .wideConstant index count => s!"Wide constant at {index} exceeds pool count {count}"
  | .constantNotText index => s!"Constant {index} is not a valid Unicode string"
  | .utf8TooLong bytes => s!"Utf8 constant of {bytes} bytes exceeds {maxTextLength}"
  | .verificationTag tag => s!"Invalid verification type tag {tag}"
  | .frameTag tag => s!"Reserved stack map frame type {tag}"
  | .frameBeyondCode => "Stack map frame offset exceeds the code size"
  | .frameTrailing bytes => s!"{bytes} trailing bytes after stack map frames"
  | .tooManyFrames => "Too many stack map frames"
  | .frameOrder offset => s!"Stack map frame at {offset} is not after its predecessor"
  | .codeLength length => s!"Invalid code length {length}"
  | .nestedTrailing name bytes => s!"{name} has {bytes} trailing bytes"
  | .bodyTrailing bytes => s!"{bytes} trailing bytes after Code attribute"
  | .tableTooLarge entries => s!"Table with {entries} entries is too large"
  | .codeTooLarge => "Code array too large"
  | .nestedTooLarge => "Nested attribute too large"
  | .noRelocation offset => s!"No relocation for bytecode offset {offset}"
  | .relocationTooFar offset => s!"Relocated offset {offset} exceeds the code size"
  | .variableRange => "Local variable range exceeds the code size"
  | .notBoundary offset => s!"Offset {offset} is not an instruction boundary"
  | .branchOutside offset target =>
      s!"Branch at {offset} targets {target} outside the code array"
  | .switchCount offset count => s!"Switch at {offset} declares {count} entries"
  | .fieldInvoked offset index => s!"Invocation at {offset} references field #{index}"
  | .interfaceCount offset declared expected =>
      s!"invokeinterface at {offset} declares count {declared} instead of {expected}"
  | .labelTwice label => s!"Label {label} placed twice"
  | .labelUnplaced label => s!"Branch to unplaced label {label}"
  | .codeExceedsLimit => s!"Encoded code exceeds {maxCodeLength} bytes"
  | .byteOperand value => s!"bipush value {value.toInt} out of range"
  | .wideLocal index => s!"Local {index} needs a wide instruction"
  | .wideIncrement index delta => s!"iinc {index} {delta.toInt} needs a wide instruction"
  | .shortConstant index => s!"ldc index {index} out of range"
  | .tooManyArguments descriptor => s!"Too many arguments for {descriptor}"
  | .candidateParameters candidate required =>
      s!"Replacement {candidate} needs at least {required} parameters"
  | .candidateCorrelation candidate =>
      s!"Replacement {candidate} must take the correlation id as last parameter"
  | .bodylessWithCode method => s!"Abstract or native method {method} has a Code attribute"

/-- What an operation reports when it fails. -/
inductive Fault where
  | malformed (defect : Defect)
  | outOfBounds
  | notSupported
  | classNotFound (owner : String)
  /-- A text is not a descriptor of the expected kind. -/
  | invalidDescriptor (text : String)
  /-- No instruction has this opcode. -/
  | invalidOpcode (opcode : UInt8) (offset : Nat)
  /-- No constant of the expected kind has this index. -/
  | constantPoolIndex (index : UInt16)
  | constantPoolOverflow
  /-- The distance of a branch does not fit its operand. -/
  | branchOverflow (source target : Nat)
  | stackOverflow (depth : UInt16)
  deriving DecidableEq, Repr

def Fault.message : Fault → String
  | .malformed defect => defect.message
  | .outOfBounds => "Out of Bound read would have occurred!"
  | .notSupported => "This feature is not supported"
  | .classNotFound owner => s!"Failed to resolve class '{owner}'"
  | .invalidDescriptor text => s!"Invalid descriptor - {text}"
  | .invalidOpcode opcode offset => s!"Invalid opcode 0x{hexByte opcode} at offset {offset}"
  | .constantPoolIndex index => s!"Invalid constant pool index - {index}"
  | .constantPoolOverflow => "Constant pool is full"
  | .branchOverflow source target =>
      s!"Branch from offset {source} to {target} does not fit its operand"
  | .stackOverflow depth => s!"Maximum stack depth overflow - {depth}"

end CallProbe
