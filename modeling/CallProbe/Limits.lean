/-!
# Limits of stored data

The largest values that the fields of a stored method body can hold. Offsets, depths
and entry counts take 16 bits, lengths of nested attributes take 32.
-/

namespace CallProbe

/-- Largest code array a method may have, in bytes. -/
def maxCodeLength : Nat := 65535

/-- Longest text a constant may hold, in encoded bytes. -/
def maxTextLength : Nat := 65535

/-- Most entries a stored table may have. -/
def maxTableLength : Nat := 65535

/-- Deepest operand stack a method may declare. -/
def maxStackDepth : Nat := 65535

/-- Longest stored content that has a 32-bit length in front. -/
def maxContentLength : Nat := 4294967295

end CallProbe
