import CallProbe.Catalog.Candidate

/-!
# Providers

A provider groups the candidates for the methods of one library type. It also
applies to the subtypes of that type.
-/

namespace CallProbe

/-- The candidates for one type, in order of declaration. -/
structure Provider where
  /-- The type whose methods are stood in for. -/
  target : String
  declaring : String
  functions : List Candidate := []
  deriving DecidableEq, Repr

/-- What a provider is told about one of its functions. -/
structure FunctionSpec where
  name : String
  replaces : String
  forStatic : Bool
  descriptor : String
  category : Category
  deriving DecidableEq, Repr

namespace Provider

/-- Declares a further function. -/
def declare (provider : Provider) (spec : FunctionSpec) : Except Fault Provider := do
  let candidate ← Candidate.create provider.declaring spec.name spec.replaces spec.forStatic
    spec.descriptor spec.category
  return { provider with functions := provider.functions ++ [candidate] }

/-- A provider with the given functions; the first one that is refused decides. -/
def create (target declaring : String) (specs : List FunctionSpec) : Except Fault Provider :=
  specs.foldlM declare { target, declaring }

end Provider

end CallProbe
