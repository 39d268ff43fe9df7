import CallProbe.Bytes.Cursor
import CallProbe.StackMap.Basic

/-!
# Stored stack maps

A stored frame holds the distance to the frame before it, less one; the first frame
holds its offset. Distances up to 63 have a one-byte form for the two common kinds,
which is always chosen when a stack map is written.
-/

namespace CallProbe

/-- Largest distance of the one-byte forms. -/
def maxCompactDelta : Nat := 63

namespace VerificationType

def encode : VerificationType → Bytes
  | top => [0]
  | integer => [1]
  | float => [2]
  | double => [3]
  | long => [4]
  | null => [5]
  | uninitializedThis => [6]
  | object index => 7 :: bytes16 index
  | uninitialized offset => 8 :: bytes16 offset

def reader : Reader VerificationType := do
  let tag ← Reader.u8
  match tag with
  | 0 => return top
  | 1 => return integer
  | 2 => return float
  | 3 => return double
  | 4 => return long
  | 5 => return null
  | 6 => return uninitializedThis
  | 7 => return object (← Reader.u16)
  | 8 => return uninitialized (← Reader.u16)
  | _ => throw (.malformed (.verificationTag tag))

end VerificationType

namespace FrameKind

/-- The stored form at a distance. The tags of `chop` and `append` count from 251 in both
directions and are kept to one byte. -/
def encode (delta : UInt16) : FrameKind → Bytes
  | same =>
    if delta.toNat ≤ maxCompactDelta then [UInt8.ofNat delta.toNat]
    else 251 :: bytes16 delta
  | sameWithItem item =>
    if delta.toNat ≤ maxCompactDelta then UInt8.ofNat (64 + delta.toNat) :: item.encode
    else 247 :: bytes16 delta ++ item.encode
  | chop count => (251 - count) :: bytes16 delta
  | append locals =>
    UInt8.ofNat (251 + locals.length) :: bytes16 delta
      ++ locals.flatMap VerificationType.encode
  | full locals stack =>
    255 :: bytes16 delta
      ++ bytes16 (UInt16.ofNat locals.length) ++ locals.flatMap VerificationType.encode
      ++ bytes16 (UInt16.ofNat stack.length) ++ stack.flatMap VerificationType.encode

/-- Reads the distance and the content of a frame. -/
def reader : Reader (UInt16 × FrameKind) := do
  let tag ← Reader.u8
  let n := tag.toNat
  if n ≤ 63 then return (UInt16.ofNat n, same)
  else if n ≤ 127 then
    return (UInt16.ofNat (n - 64), sameWithItem (← VerificationType.reader))
  else if n ≤ 246 then throw (.malformed (.frameTag tag))
  else
    let delta ← Reader.u16
    if n = 247 then return (delta, sameWithItem (← VerificationType.reader))
    else if n ≤ 250 then return (delta, chop (251 - tag))
    else if n = 251 then return (delta, same)
    else if n ≤ 254 then
      return (delta, append (← Reader.many VerificationType.reader (n - 251)))
    else
      let locals ← Reader.many VerificationType.reader (← Reader.u16).toNat
      let stack ← Reader.many VerificationType.reader (← Reader.u16).toNat
      return (delta, full locals stack)

end FrameKind

namespace Frame

/-- The distance from the frame at `previous` to the one at `offset`; none if it is no later. -/
def delta? (previous : Option UInt16) (offset : UInt16) : Option UInt16 :=
  match previous with
  | none => some offset
  | some previous =>
    if previous < offset then some (UInt16.ofNat (offset.toNat - previous.toNat - 1)) else none

/-- The offset at a distance from the frame at `previous`; none beyond any code array. -/
def offset? (previous : Option UInt16) (delta : UInt16) : Option UInt16 :=
  match previous with
  | none => some delta
  | some previous =>
    let offset := previous.toNat + delta.toNat + 1
    if offset ≤ maxCodeLength then some (UInt16.ofNat offset) else none

/-- The stored form behind the frame at `previous`. -/
def encode (previous : Option UInt16) (frame : Frame) : Except Fault Bytes :=
  match delta? previous frame.offset with
  | some delta => .ok (frame.kind.encode delta)
  | none => .error (.malformed (.frameOrder frame.offset))

end Frame

namespace StackMap

/-- The offset of the frame before each frame. -/
def previousOffsets (frames : StackMap) : List (Option UInt16) :=
  none :: frames.map (some ·.offset)

def encode (frames : StackMap) : Except Fault Bytes := do
  if maxTableLength < frames.length then throw (.malformed .tooManyFrames)
  let stored ← (frames.previousOffsets.zip frames).mapM fun (previous, frame) =>
    frame.encode previous
  return bytes16 (UInt16.ofNat frames.length) ++ stored.flatten

/-- Reads `count` frames behind those already `found`, the last of which lies at `previous`. -/
def framesAfter (found : List Frame) (previous : Option UInt16) : Nat → Reader StackMap
  | 0 => return found.reverse
  | count + 1 => do
    let (delta, kind) ← FrameKind.reader
    match Frame.offset? previous delta with
    | some offset => framesAfter ({ offset, kind } :: found) (some offset) count
    | none => throw (.malformed .frameBeyondCode)

/-- Reads a stack map that takes up all bytes. -/
def reader : Reader StackMap := do
  let frames ← framesAfter [] none (← Reader.u16).toNat
  Reader.finish .frameTrailing
  return frames

/-- The stack map that `data` stores. -/
def ofBytes (data : Bytes) : Except Fault StackMap := reader.read data

end StackMap

end CallProbe
