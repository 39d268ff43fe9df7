import CallProbe.Relocation
import CallProbe.Sweep
import CallProbe.StackMap.Basic

/-!
# Moving stack maps

A frame moves before the types it names, and frames move in order. What has moved
before a failure stays moved.
-/

namespace CallProbe

namespace VerificationType

/-- Moves the offset that a type refers to. -/
def relocate (relocation : Relocation) : VerificationType → Swept VerificationType
  | uninitialized offset =>
    Swept.ofExcept (relocation.apply offset) uninitialized (uninitialized offset)
  | type => { value := type }

def relocateAll (relocation : Relocation) (types : List VerificationType) :
    Swept (List VerificationType) :=
  Swept.list (relocate relocation) types

end VerificationType

namespace FrameKind

/-- Moves the offsets that a frame's types refer to. -/
def relocate (relocation : Relocation) : FrameKind → Swept FrameKind
  | same => { value := same }
  | chop count => { value := chop count }
  | sameWithItem item => (item.relocate relocation).map sameWithItem
  | append locals => (VerificationType.relocateAll relocation locals).map append
  | full locals stack =>
    let locals := VerificationType.relocateAll relocation locals
    match locals.fault with
    | some _ => locals.map (full · stack)
    | none => (VerificationType.relocateAll relocation stack).map (full locals.value)

end FrameKind

/-- Moves a frame, then the offsets that its types refer to. -/
def Frame.relocate (relocation : Relocation) (frame : Frame) : Swept Frame :=
  match relocation.apply frame.offset with
  | .error fault => { value := frame, fault := some fault }
  | .ok offset => (frame.kind.relocate relocation).map ({ offset, kind := · })

def StackMap.relocate (relocation : Relocation) (frames : StackMap) : Swept StackMap :=
  Swept.list (Frame.relocate relocation) frames

end CallProbe
