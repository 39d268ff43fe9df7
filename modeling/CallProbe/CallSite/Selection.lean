import CallProbe.Ancestry.ResolvedType
import CallProbe.CallSite.Settings
import CallProbe.Catalog.Registry
import CallProbe.Instruction.Basic

/-!
# Selecting substitutes

The decision for one call. A call stays as it is inside a class initialiser, where
its owner is not admitted, or where it is not dispatched on its receiver. Otherwise its
owner has to resolve, and the first candidate that has the call's shape is taken.
-/

namespace CallProbe

/-- The method whose calls are looked at. -/
structure MethodContext where
  className : String
  name : String
  descriptor : String
  maxStack : UInt16
  deriving DecidableEq, Repr

namespace MethodContext

/-- The name of class initialisers. -/
def classInitializer : String := "<clinit>"

/-- The method as it is shown without its descriptor. -/
def place (method : MethodContext) : String := method.className ++ "." ++ method.name

end MethodContext

/-- The candidates, a way to resolve the owners of calls, and the settings. -/
structure Weaver where
  registry : Registry
  resolver : Resolver
  settings : Settings

/-- What came of looking at a call. -/
structure Selection where
  outcome : Except Fault (Option Candidate)
  events : List Event := []

namespace Weaver

/-- Whether a call stays as it is whatever its owner is: the method initialises its class, or the
settings do not admit the owner. -/
def passesOver (weaver : Weaver) (method : MethodContext) (call : Call) : Bool :=
  method.name == MethodContext.classInitializer || !weaver.settings.admits call.owner

/-- The first candidate of a resolved owner that has the shape of a call. -/
def selectAt (weaver : Weaver) (owner : ResolvedType) (call : Call) : Selection :=
  let isStatic := call.kind.isStatic
  match weaver.registry.candidates owner call.name isStatic with
  | [] => { outcome := .ok none }
  | candidates =>
    match MethodDescriptor.parse call.descriptor with
    | .error fault => { outcome := .error fault }
    | .ok descriptor =>
      match candidates.find? (·.accepts descriptor isStatic) with
      | some candidate => { outcome := .ok (some candidate) }
      | none => { outcome := .ok none, events := [.noMatch call.callee] }

/-- The substitute for a call, if it has one. -/
def select (weaver : Weaver) (method : MethodContext) (call : Call) : Selection :=
  if weaver.passesOver method call then { outcome := .ok none }
  else if call.kind = .special then
    { outcome := .ok none, events := [.keptSpecial call.callee method.place] }
  else
    let resolution := weaver.resolver call.owner
    match resolution.outcome with
    | .error fault =>
      { outcome := .error fault
        events := resolution.events
          ++ [.unresolvedOwner call.owner (method.place ++ method.descriptor) fault] }
    | .ok owner =>
      let selection := weaver.selectAt owner call
      { selection with events := resolution.events ++ selection.events }

end Weaver

end CallProbe
