/-!
# Source positions

Where in the source a walk over a stream is: the last line that has started, and how
many calls were numbered since.
-/

namespace CallProbe

/-- The current line and the next number on it. -/
structure SourcePosition where
  line : Nat := 0
  index : Nat := 0
  deriving DecidableEq, Repr

namespace SourcePosition

/-- Highest number a call can get. -/
def maxIndex : Nat := 4294967295

/-- The position where a line starts, be it for the first time or again. -/
def atLine (_ : SourcePosition) (line : Nat) : SourcePosition := { line }

/-- Takes the next number on the line; numbers stay at the highest one. -/
def claim (position : SourcePosition) : Nat × SourcePosition :=
  (position.index, { position with index := min (position.index + 1) maxIndex })

end SourcePosition

end CallProbe
