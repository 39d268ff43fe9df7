import CallProbe.Bytes.BigEndian
import CallProbe.Bytes.Cursor
import CallProbe.Text.ModifiedUtf8

/-!
# Constants

The entries of a constant pool and their stored form: a tag byte, then the
operands. Floating-point values are kept as bit patterns, so that constants can be
compared exactly.
-/

namespace CallProbe

/-- What a member reference refers to. -/
inductive MemberKind where
  | field
  | method
  | interfaceMethod
  deriving DecidableEq, Repr, Hashable

/-- An entry of a constant pool. -/
inductive Constant where
  | utf8 (text : String)
  /-- A text that is not the shortest form of Unicode characters, by its bytes. -/
  | rawUtf8 (bytes : Bytes)
  | integer (value : Int32)
  | float (bits : UInt32)
  | long (value : Int64)
  | double (bits : UInt64)
  | classRef (name : UInt16)
  | string (text : UInt16)
  | member (kind : MemberKind) (owner nameAndType : UInt16)
  | nameAndType (name descriptor : UInt16)
  | methodHandle (kind : UInt8) (reference : UInt16)
  | methodType (descriptor : UInt16)
  | dynamic (bootstrap nameAndType : UInt16)
  | invokeDynamic (bootstrap nameAndType : UInt16)
  | moduleRef (name : UInt16)
  | packageRef (name : UInt16)
  deriving DecidableEq, Repr, Hashable

namespace Constant

/-- Pool slots the constant takes. -/
def slots : Constant → Nat
  | long _ | double _ => 2
  | _ => 1

/-- Number of bytes a text constant is stored with, and zero for any other constant. -/
def textLength : Constant → Nat
  | utf8 text => ModifiedUtf8.encodedLength text
  | rawUtf8 bytes => bytes.length
  | _ => 0

/-- The byte that tells the kind of constant. -/
def tag : Constant → UInt8
  | utf8 _ | rawUtf8 _ => 1
  | integer _ => 3
  | float _ => 4
  | long _ => 5
  | double _ => 6
  | classRef _ => 7
  | string _ => 8
  | member .field _ _ => 9
  | member .method _ _ => 10
  | member .interfaceMethod _ _ => 11
  | nameAndType _ _ => 12
  | methodHandle _ _ => 15
  | methodType _ => 16
  | dynamic _ _ => 17
  | invokeDynamic _ _ => 18
  | moduleRef _ => 19
  | packageRef _ => 20

def operands : Constant → Bytes
  | utf8 text =>
    let bytes := ModifiedUtf8.encode text
    bytes16 (UInt16.ofNat bytes.length) ++ bytes
  | rawUtf8 bytes => bytes16 (UInt16.ofNat bytes.length) ++ bytes
  | integer value => bytes32 value.toUInt32
  | float bits => bytes32 bits
  | long value => bytes64 value.toUInt64
  | double bits => bytes64 bits
  | classRef index | string index | methodType index | moduleRef index | packageRef index =>
    bytes16 index
  | member _ first second | nameAndType first second | dynamic first second
  | invokeDynamic first second => bytes16 first ++ bytes16 second
  | methodHandle kind reference => kind :: bytes16 reference

def encode (constant : Constant) : Bytes := constant.tag :: constant.operands

/-- The text constant with the given bytes, which spell `units`. Bytes that are not the shortest
form of a text stay as they are. -/
def ofText (bytes : Bytes) (units : List UInt16) : Constant :=
  match Utf16.toString? units with
  | some text => if ModifiedUtf8.encode text = bytes then utf8 text else rawUtf8 bytes
  | none => rawUtf8 bytes

def reader : Reader Constant := do
  let offset := (← get).pos
  let tag ← Reader.u8
  match tag with
  | 1 =>
    let bytes ← Reader.take (← Reader.u16).toNat
    let units ← ModifiedUtf8.decodeUnits bytes
    return ofText bytes units
  | 3 => return integer (← Reader.i32)
  | 4 => return float (← Reader.u32)
  | 5 => return long (← Reader.i64)
  | 6 => return double (← Reader.u64)
  | 7 => return classRef (← Reader.u16)
  | 8 => return string (← Reader.u16)
  | 9 => return member .field (← Reader.u16) (← Reader.u16)
  | 10 => return member .method (← Reader.u16) (← Reader.u16)
  | 11 => return member .interfaceMethod (← Reader.u16) (← Reader.u16)
  | 12 => return nameAndType (← Reader.u16) (← Reader.u16)
  | 15 => return methodHandle (← Reader.u8) (← Reader.u16)
  | 16 => return methodType (← Reader.u16)
  | 17 => return dynamic (← Reader.u16) (← Reader.u16)
  | 18 => return invokeDynamic (← Reader.u16) (← Reader.u16)
  | 19 => return moduleRef (← Reader.u16)
  | 20 => return packageRef (← Reader.u16)
  | _ => throw (.malformed (.poolTag tag offset))

end Constant

end CallProbe
