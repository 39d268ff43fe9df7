import CallProbe.Bytes.BigEndian

/-!
# Stack maps

A frame describes the local variables and the operand stack at one offset of a
code array. Frames are kept with absolute offsets; only the stored form counts from
frame to frame.
-/

namespace CallProbe

/-- What the verifier knows about one slot. -/
inductive VerificationType where
  | top
  | integer
  | float
  | double
  | long
  | null
  | uninitializedThis
  /-- An instance of the class at a pool index. -/
  | object (index : UInt16)
  /-- The result of the allocation at an offset. -/
  | uninitialized (offset : UInt16)
  deriving DecidableEq, Repr

/-- The offset that a type refers to. -/
def VerificationType.offset? : VerificationType → Option UInt16
  | uninitialized offset => some offset
  | _ => none

/-- A frame's content, seen from the frame before it. -/
inductive FrameKind where
  /-- The same locals, an empty stack. -/
  | same
  /-- The same locals, one item on the stack. -/
  | sameWithItem (item : VerificationType)
  /-- The last locals are gone, an empty stack. -/
  | chop (count : UInt8)
  /-- Further locals, an empty stack. -/
  | append (locals : List VerificationType)
  /-- All locals and the whole stack. -/
  | full (locals stack : List VerificationType)
  deriving DecidableEq, Repr

/-- The types that a frame names. -/
def FrameKind.types : FrameKind → List VerificationType
  | same | chop _ => []
  | sameWithItem item => [item]
  | append locals => locals
  | full locals stack => locals ++ stack

structure Frame where
  offset : UInt16
  kind : FrameKind
  deriving DecidableEq, Repr

/-- Every offset that a frame refers to, its own first. -/
def Frame.offsets (frame : Frame) : List UInt16 :=
  frame.offset :: frame.kind.types.filterMap VerificationType.offset?

abbrev StackMap := List Frame

/-- Every offset that the frames refer to. -/
def StackMap.offsets (frames : StackMap) : List UInt16 := frames.flatMap Frame.offsets

end CallProbe
