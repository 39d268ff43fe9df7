import CallProbe.Descriptor.Parser

/-!
# Candidates

A candidate is a static function that can stand in for a library method. Its
descriptor spells out the whole calling convention: the receiver of an instance
method comes first, the correlation id of the call site comes last.
-/

namespace CallProbe

/-- What the objectives of a candidate tell about a call. -/
inductive Category where
  /-- The boolean result of the call. -/
  | boolean
  /-- Whether the call throws. -/
  | exception
  /-- The values that were seen. -/
  | tracker
  deriving DecidableEq, Repr

def Category.name : Category → String
  | boolean => "BOOLEAN"
  | exception => "EXCEPTION"
  | tracker => "TRACKER"

/-- A function standing in for a library method. -/
structure Candidate where
  declaring : String
  name : String
  /-- The name of the method it stands in for. -/
  replaces : String
  forStatic : Bool
  descriptor : MethodDescriptor
  category : Category
  deriving DecidableEq, Repr

namespace Candidate

def correlationType : FieldType := .object "java/lang/String"

/-- Leading parameters that are not arguments of the call: the receiver of an instance call. -/
def receiverCount (isStatic : Bool) : Nat := if isStatic then 0 else 1

/-- A candidate whose descriptor carries the calling convention. -/
def create (declaring name replaces : String) (forStatic : Bool) (descriptor : String)
    (category : Category) : Except Fault Candidate := do
  let parsed ← MethodDescriptor.parse descriptor
  let shown := declaring ++ "." ++ name ++ descriptor
  let required := receiverCount forStatic + 1
  if parsed.parameters.length < required then
    throw (.malformed (.candidateParameters shown required))
  if parsed.parameters.getLast? ≠ some correlationType then
    throw (.malformed (.candidateCorrelation shown))
  return { declaring, name, replaces, forStatic, descriptor := parsed, category }

/-- Whether a candidate can stand in for a call: they agree on having a receiver, and between the
receiver and the correlation id the candidate's descriptor is that of the call. -/
def accepts (candidate : Candidate) (call : MethodDescriptor) (isStatic : Bool) : Bool :=
  candidate.forStatic == isStatic
    && candidate.descriptor.inner? (receiverCount isStatic) == some call

end Candidate

end CallProbe
