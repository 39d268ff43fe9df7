import CallProbe.StackMap.Basic
import Std.Data.TreeSet

/-!
# Method bodies

The content of a `Code` attribute: limits, code array, exception handlers and the
nested attributes, four kinds of which refer to offsets of the code array.
-/

namespace CallProbe

/-- A protected range, its end exclusive, and where its handler starts. -/
structure Handler where
  start : UInt16
  stop : UInt16
  target : UInt16
  catchType : UInt16
  deriving DecidableEq, Repr

/-- The source line that starts at an offset. -/
structure LineMark where
  start : UInt16
  line : UInt16
  deriving DecidableEq, Repr

/-- Where a local variable is live. -/
structure VariableRange where
  start : UInt16
  length : UInt16
  name : UInt16
  descriptor : UInt16
  slot : UInt16
  deriving DecidableEq, Repr

/-- What a table of local variables states of each: its type or its generic signature. -/
inductive VariableTable where
  | types
  | signatures
  deriving DecidableEq, Repr

/-- The attribute name of a table of local variables. -/
def VariableTable.name : VariableTable → String
  | types => "LocalVariableTable"
  | signatures => "LocalVariableTypeTable"

/-- An attribute of a method body, under the pool index of its name. -/
inductive NestedAttribute where
  | lineNumbers (name : UInt16) (marks : List LineMark)
  | localVariables (table : VariableTable) (name : UInt16) (ranges : List VariableRange)
  | stackMap (name : UInt16) (frames : StackMap)
  | unknown (name : UInt16) (data : Bytes)
  deriving DecidableEq, Repr

def NestedAttribute.name : NestedAttribute → UInt16
  | lineNumbers name _ | localVariables _ name _ | stackMap name _ | unknown name _ => name

structure MethodBody where
  maxStack : UInt16
  maxLocals : UInt16
  code : Bytes
  handlers : List Handler
  attributes : List NestedAttribute
  deriving DecidableEq, Repr

/-! ## Offsets referred to from outside the code array -/

/-- Start, end and target of a handler. -/
def Handler.offsets (handler : Handler) : List Nat :=
  [handler.start.toNat, handler.stop.toNat, handler.target.toNat]

/-- Start and end of a variable's range. -/
def VariableRange.offsets (range : VariableRange) : List Nat :=
  [range.start.toNat, range.start.toNat + range.length.toNat]

/-- Every offset that a nested attribute refers to. -/
def NestedAttribute.offsets : NestedAttribute → List Nat
  | lineNumbers _ marks => marks.map (·.start.toNat)
  | localVariables _ _ ranges => ranges.flatMap VariableRange.offsets
  | stackMap _ frames => frames.offsets.map (·.toNat)
  | unknown _ _ => []

def NestedAttribute.lineMarks : NestedAttribute → List LineMark
  | lineNumbers _ marks => marks
  | _ => []

namespace MethodBody

/-- The line marks of all tables, in stored order. -/
def lineMarks (body : MethodBody) : List LineMark :=
  body.attributes.flatMap NestedAttribute.lineMarks

/-- Every offset that handlers and nested attributes refer to, with repetitions. -/
def offsets (body : MethodBody) : List Nat :=
  body.handlers.flatMap Handler.offsets ++ body.attributes.flatMap NestedAttribute.offsets

/-- The offsets that handlers and nested attributes refer to. A range that ends with the code
array refers to its length. -/
def referencedOffsets (body : MethodBody) : Std.TreeSet Nat := .ofList body.offsets

end MethodBody

end CallProbe
