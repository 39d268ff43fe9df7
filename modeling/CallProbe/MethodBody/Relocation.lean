import CallProbe.Event
import CallProbe.MethodBody.Basic
import CallProbe.StackMap.Relocation

/-!
# Moving method bodies

A new code array is installed together with the new places of everything that refers
to the old one. Attributes of unknown content may refer to offsets in unknown ways
and are dropped.
-/

namespace CallProbe

/-- Moves start, end and target of a handler, one after the other. -/
def Handler.relocate (relocation : Relocation) (handler : Handler) : Swept Handler :=
  let started := Swept.ofExcept (relocation.apply handler.start)
    (fun start => { handler with start }) handler
  let stopped := started.andThen fun handler =>
    Swept.ofExcept (relocation.apply handler.stop) (fun stop => { handler with stop }) handler
  stopped.andThen fun handler =>
    Swept.ofExcept (relocation.apply handler.target) (fun target => { handler with target })
      handler

def LineMark.relocate (relocation : Relocation) (mark : LineMark) : Except Fault LineMark :=
  return { mark with start := ← relocation.apply mark.start }

/-- Moves both ends of a variable's range; a range whose ends change places becomes empty. -/
def VariableRange.relocate (relocation : Relocation) (range : VariableRange) :
    Except Fault VariableRange := do
  let stop := range.start.toNat + range.length.toNat
  if maxCodeLength < stop then throw (.malformed .variableRange)
  let start ← relocation.apply range.start
  let stop ← relocation.apply (UInt16.ofNat stop)
  return { range with start, length := UInt16.ofNat (stop.toNat - start.toNat) }

namespace NestedAttribute

/-- Moves the offsets of a nested attribute; there are none to move in unknown content. -/
def relocate (relocation : Relocation) : NestedAttribute → Except Fault NestedAttribute
  | lineNumbers name marks =>
    return lineNumbers name (← marks.mapM (LineMark.relocate relocation))
  | localVariables table name ranges =>
    return localVariables table name (← ranges.mapM (VariableRange.relocate relocation))
  | stackMap name frames => return stackMap name (← (frames.relocate relocation).complete)
  | unknown name data => return unknown name data

/-- Moves attributes in order, behind those already `moved`, and drops the unknown ones. -/
def relocateAfter (relocation : Relocation) (moved : List NestedAttribute)
    (events : List Event) : List NestedAttribute → Except Fault (List NestedAttribute) × List Event
  | [] => (.ok moved.reverse, events.reverse)
  | unknown name _ :: rest =>
    relocateAfter relocation moved (.droppedAttribute name :: events) rest
  | nested :: rest =>
    match nested.relocate relocation with
    | .ok nested => relocateAfter relocation (nested :: moved) events rest
    | .error fault => (.error fault, events.reverse)

/-- Moves attributes in order and drops the unknown ones. -/
def relocateAll (relocation : Relocation) (attributes : List NestedAttribute) :
    Except Fault (List NestedAttribute) × List Event :=
  relocateAfter relocation [] [] attributes

end NestedAttribute

namespace MethodBody

/-- Installs a code array and moves what refers to it. Handlers that have moved before a failure
stay moved; attributes are all moved or all lost. -/
def relocate (body : MethodBody) (code : Bytes) (relocation : Relocation) :
    Swept MethodBody × List Event :=
  let handlers := Swept.list (Handler.relocate relocation) body.handlers
  let body := { body with handlers := handlers.value }
  match handlers.fault with
  | some fault => ({ value := body, fault := some fault }, [])
  | none =>
    match NestedAttribute.relocateAll relocation body.attributes with
    | (.ok attributes, events) => ({ value := { body with code, attributes } }, events)
    | (.error fault, events) =>
      ({ value := { body with attributes := [] }, fault := some fault }, events)

end MethodBody

end CallProbe
