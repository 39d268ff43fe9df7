import CallProbe.Fault
import CallProbe.Event

/-!
# Resolved types

A type together with everything it can be assigned to, and what it means to resolve
a name to one.
-/

namespace CallProbe

/-- A resolved type; its supertypes are listed nearest first. -/
structure ResolvedType where
  name : String
  ancestors : List String
  deriving DecidableEq, Repr

namespace ResolvedType

/-- The type itself, then its ancestors. -/
def lineage (type : ResolvedType) : List String := type.name :: type.ancestors

/-- Whether a value of the type can be assigned to `target`. -/
def isAssignableTo (type : ResolvedType) (target : String) : Bool := type.lineage.contains target

end ResolvedType

/-- What came of resolving a name. -/
structure Resolution where
  outcome : Except Fault ResolvedType
  events : List Event := []

/-- A way to resolve names to types. -/
abbrev Resolver := String → Resolution

end CallProbe
