/-!
# Opcodes

The one-byte codes of the instructions: their mnemonics, the operands that follow
each of them, and names for those that the library writes itself.
-/

namespace CallProbe

/-- The dispatch of a method call. -/
inductive InvokeKind where
  | virtual
  | special
  | static
  | interface
  deriving DecidableEq, Repr

namespace Opcode

def nop : UInt8 := 0x00
def aconstNull : UInt8 := 0x01
def bipush : UInt8 := 0x10
def ldc : UInt8 := 0x12
def ldcWide : UInt8 := 0x13
def iinc : UInt8 := 0x84
def tableSwitch : UInt8 := 0xAA
def lookupSwitch : UInt8 := 0xAB
def invokeVirtual : UInt8 := 0xB6
def invokeSpecial : UInt8 := 0xB7
def invokeStatic : UInt8 := 0xB8
def invokeInterface : UInt8 := 0xB9
def invokeDynamic : UInt8 := 0xBA
def newArray : UInt8 := 0xBC
def wide : UInt8 := 0xC4
def multiNewArray : UInt8 := 0xC5
def gotoWide : UInt8 := 0xC8
def jsrWide : UInt8 := 0xC9

/-- The mnemonics of all instructions, in the order of their opcodes. -/
def mnemonics : Array String := #[
    "nop", "aconst_null", "iconst_m1", "iconst_0", "iconst_1", "iconst_2", "iconst_3",
    "iconst_4", "iconst_5", "lconst_0", "lconst_1", "fconst_0", "fconst_1", "fconst_2",
    "dconst_0", "dconst_1", "bipush", "sipush", "ldc", "ldc_w", "ldc2_w", "iload", "lload",
    "fload", "dload", "aload", "iload_0", "iload_1", "iload_2", "iload_3", "lload_0", "lload_1",
    "lload_2", "lload_3", "fload_0", "fload_1", "fload_2", "fload_3", "dload_0", "dload_1",
    "dload_2", "dload_3", "aload_0", "aload_1", "aload_2", "aload_3", "iaload", "laload",
    "faload", "daload", "aaload", "baload", "caload", "saload", "istore", "lstore", "fstore",
    "dstore", "astore", "istore_0", "istore_1", "istore_2", "istore_3", "lstore_0", "lstore_1",
    "lstore_2", "lstore_3", "fstore_0", "fstore_1", "fstore_2", "fstore_3", "dstore_0",
    "dstore_1", "dstore_2", "dstore_3", "astore_0", "astore_1", "astore_2", "astore_3",
    "iastore", "lastore", "fastore", "dastore", "aastore", "bastore", "castore", "sastore",
    "pop", "pop2", "dup", "dup_x1", "dup_x2", "dup2", "dup2_x1", "dup2_x2", "swap", "iadd",
    "ladd", "fadd", "dadd", "isub", "lsub", "fsub", "dsub", "imul", "lmul", "fmul", "dmul",
    "idiv", "ldiv", "fdiv", "ddiv", "irem", "lrem", "frem", "drem", "ineg", "lneg", "fneg",
    "dneg", "ishl", "lshl", "ishr", "lshr", "iushr", "lushr", "iand", "land", "ior", "lor",
    "ixor", "lxor", "iinc", "i2l", "i2f", "i2d", "l2i", "l2f", "l2d", "f2i", "f2l", "f2d", "d2i",
    "d2l", "d2f", "i2b", "i2c", "i2s", "lcmp", "fcmpl", "fcmpg", "dcmpl", "dcmpg", "ifeq",
    "ifne", "iflt", "ifge", "ifgt", "ifle", "if_icmpeq", "if_icmpne", "if_icmplt", "if_icmpge",
    "if_icmpgt", "if_icmple", "if_acmpeq", "if_acmpne", "goto", "jsr", "ret", "tableswitch",
    "lookupswitch", "ireturn", "lreturn", "freturn", "dreturn", "areturn", "return", "getstatic",
    "putstatic", "getfield", "putfield", "invokevirtual", "invokespecial", "invokestatic",
    "invokeinterface", "invokedynamic", "new", "newarray", "anewarray", "arraylength", "athrow",
    "checkcast", "instanceof", "monitorenter", "monitorexit", "wide", "multianewarray", "ifnull",
    "ifnonnull", "goto_w", "jsr_w"]

def mnemonic? (opcode : UInt8) : Option String := mnemonics[opcode.toNat]?

/-- What follows an opcode. -/
inductive Operands where
  | none
  | byteValue
  | shortValue
  | byteConstant
  /-- A two-byte pool index of a constant to load. -/
  | shortConstant
  | slot
  /-- A one-byte local variable slot and a signed byte. -/
  | increment
  | branch
  | wideBranch
  | tableSwitch
  | lookupSwitch
  /-- A two-byte pool index of a field or a class. -/
  | reference
  | invoke (kind : InvokeKind)
  | invokeDynamic
  | newArray
  | multiNewArray
  /-- An instruction with operands of twice the width. -/
  | widened
  deriving DecidableEq, Repr

/-- What follows an opcode; none for the bytes that are no opcode. -/
def operands? (opcode : UInt8) : Option Operands :=
  let n := opcode.toNat
  if n ≤ 0x0F then some .none
  else if n = 0x10 then some .byteValue
  else if n = 0x11 then some .shortValue
  else if n = 0x12 then some .byteConstant
  else if n ≤ 0x14 then some .shortConstant
  else if n ≤ 0x19 then some .slot
  else if n ≤ 0x35 then some .none
  else if n ≤ 0x3A then some .slot
  else if n ≤ 0x83 then some .none
  else if n = 0x84 then some .increment
  else if n ≤ 0x98 then some .none
  else if n ≤ 0xA8 then some .branch
  else if n = 0xA9 then some .slot
  else if n = 0xAA then some .tableSwitch
  else if n = 0xAB then some .lookupSwitch
  else if n ≤ 0xB1 then some .none
  else if n ≤ 0xB5 then some .reference
  else if n = 0xB6 then some (.invoke .virtual)
  else if n = 0xB7 then some (.invoke .special)
  else if n = 0xB8 then some (.invoke .static)
  else if n = 0xB9 then some (.invoke .interface)
  else if n = 0xBA then some .invokeDynamic
  else if n = 0xBB then some .reference
  else if n = 0xBC then some .newArray
  else if n = 0xBD then some .reference
  else if n ≤ 0xBF then some .none
  else if n ≤ 0xC1 then some .reference
  else if n ≤ 0xC3 then some .none
  else if n = 0xC4 then some .widened
  else if n = 0xC5 then some .multiNewArray
  else if n ≤ 0xC7 then some .branch
  else if n ≤ 0xC9 then some .wideBranch
  else .none

/-- Whether an instruction with this opcode has a 32-bit distance. -/
def isWideBranch (opcode : UInt8) : Bool := opcode == gotoWide || opcode == jsrWide

end Opcode

namespace InvokeKind

def name : InvokeKind → String
  | virtual => "virtual"
  | special => "special"
  | static => "static"
  | interface => "interface"

def opcode : InvokeKind → UInt8
  | virtual => Opcode.invokeVirtual
  | special => Opcode.invokeSpecial
  | static => Opcode.invokeStatic
  | interface => Opcode.invokeInterface

/-- The dispatch of the call with an opcode. -/
def ofOpcode? (opcode : UInt8) : Option InvokeKind :=
  match Opcode.operands? opcode with
  | some (.invoke kind) => some kind
  | _ => none

/-- Whether the call has no receiver. -/
def isStatic (kind : InvokeKind) : Bool := kind == static

end InvokeKind

end CallProbe
