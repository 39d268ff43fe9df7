import CallProbe.Pool.Symbol
import CallProbe.MethodBody.Basic
import CallProbe.StackMap.Codec

/-!
# Stored method bodies

Every table stands behind its 16-bit entry count, every nested attribute behind the
pool index of its name and its 32-bit length. The length has to agree with the
table inside.
-/

namespace CallProbe

/-- The stored entry count of a table. -/
def tableCount (entries : Nat) : Except Fault Bytes :=
  if entries ≤ maxTableLength then .ok (bytes16 (UInt16.ofNat entries))
  else .error (.malformed (.tableTooLarge entries))

/-- The stored form of a table. -/
def encodeTable {α : Type} (encode : α → Bytes) (entries : List α) : Except Fault Bytes := do
  return (← tableCount entries.length) ++ entries.flatMap encode

def tableReader {α : Type} (reader : Reader α) : Reader (List α) := do
  reader.many (← Reader.u16).toNat

namespace Handler

def encode (handler : Handler) : Bytes :=
  bytes16 handler.start ++ bytes16 handler.stop ++ bytes16 handler.target
    ++ bytes16 handler.catchType

def reader : Reader Handler :=
  return {
    start := ← Reader.u16
    stop := ← Reader.u16
    target := ← Reader.u16
    catchType := ← Reader.u16 }

end Handler

namespace LineMark

def encode (mark : LineMark) : Bytes := bytes16 mark.start ++ bytes16 mark.line

def reader : Reader LineMark := return { start := ← Reader.u16, line := ← Reader.u16 }

end LineMark

namespace VariableRange

def encode (range : VariableRange) : Bytes :=
  bytes16 range.start ++ bytes16 range.length ++ bytes16 range.name ++ bytes16 range.descriptor
    ++ bytes16 range.slot

def reader : Reader VariableRange :=
  return {
    start := ← Reader.u16
    length := ← Reader.u16
    name := ← Reader.u16
    descriptor := ← Reader.u16
    slot := ← Reader.u16 }

end VariableRange

namespace NestedAttribute

/-- The content, without name and length. -/
def encodeContent : NestedAttribute → Except Fault Bytes
  | lineNumbers _ marks => encodeTable LineMark.encode marks
  | localVariables _ _ ranges => encodeTable VariableRange.encode ranges
  | stackMap _ frames => frames.encode
  | unknown _ data => .ok data

def encode (nested : NestedAttribute) : Except Fault Bytes := do
  let content ← nested.encodeContent
  if maxContentLength < content.length then throw (.malformed .nestedTooLarge)
  return bytes16 nested.name ++ bytes32 (UInt32.ofNat content.length) ++ content

/-- A table that is the whole content of the attribute `name`. -/
def tableOfBytes {α : Type} (reader : Reader α) (name : String) (content : Bytes) :
    Except Fault (List α) :=
  Reader.read (do
    let entries ← tableReader reader
    Reader.finish (.nestedTrailing name)
    return entries) content

/-- The attribute that `content` stores under a name. -/
def ofContent (pool : Pool) (name : UInt16) (content : Bytes) : Except Fault NestedAttribute := do
  match ← pool.text name with
  | "LineNumberTable" =>
    return lineNumbers name (← tableOfBytes LineMark.reader "LineNumberTable" content)
  | "LocalVariableTable" =>
    return localVariables .types name
      (← tableOfBytes VariableRange.reader "LocalVariableTable" content)
  | "LocalVariableTypeTable" =>
    return localVariables .signatures name
      (← tableOfBytes VariableRange.reader "LocalVariableTypeTable" content)
  | "StackMapTable" => return stackMap name (← StackMap.ofBytes content)
  | _ => return unknown name content

def reader (pool : Pool) : Reader NestedAttribute := do
  let name ← Reader.u16
  let content ← Reader.take (← Reader.u32).toNat
  ofContent pool name content

end NestedAttribute

namespace MethodBody

def encode (body : MethodBody) : Except Fault Bytes := do
  if maxContentLength < body.code.length then throw (.malformed .codeTooLarge)
  let handlers ← encodeTable Handler.encode body.handlers
  let attributeCount ← tableCount body.attributes.length
  let attributes ← body.attributes.mapM NestedAttribute.encode
  return bytes16 body.maxStack ++ bytes16 body.maxLocals
    ++ bytes32 (UInt32.ofNat body.code.length) ++ body.code
    ++ handlers ++ attributeCount ++ attributes.flatten

/-- Reads a method body that takes up all bytes. -/
def reader (pool : Pool) : Reader MethodBody := do
  let maxStack ← Reader.u16
  let maxLocals ← Reader.u16
  let length := (← Reader.u32).toNat
  if length = 0 ∨ maxCodeLength < length then throw (.malformed (.codeLength length))
  let code ← Reader.take length
  let handlers ← tableReader Handler.reader
  let attributes ← tableReader (NestedAttribute.reader pool)
  Reader.finish .bodyTrailing
  return { maxStack, maxLocals, code, handlers, attributes }

/-- The method body that `data` stores; attribute names are looked up in `pool`. -/
def ofBytes (pool : Pool) (data : Bytes) : Except Fault MethodBody := (reader pool).read data

end MethodBody

end CallProbe
