import CallProbe.Fault
import CallProbe.Limits

/-!
# Relocations

When instructions were inserted, everything that refers to an offset follows its
instruction. A relocation is a function from old offsets to new ones; it may leave
offsets out, and it may lead beyond any code array.
-/

namespace CallProbe

/-- The new offset of each old one that has moved along. -/
abbrev Relocation := Nat → Option Nat

/-- The new place of an offset. -/
def Relocation.apply (relocation : Relocation) (offset : UInt16) : Except Fault UInt16 :=
  match relocation offset.toNat with
  | none => .error (.malformed (.noRelocation offset))
  | some moved =>
    if moved ≤ maxCodeLength then .ok (UInt16.ofNat moved)
    else .error (.malformed (.relocationTooFar moved))

end CallProbe
