import CallProbe.Fault

/-!
# Events

What an operation has to tell besides its result. Operations return their events as
data, in the order in which they happened.
-/

namespace CallProbe

/-- How urgent an event is. -/
inductive Level where
  | error
  | warn
  | debug
  | trace
  deriving DecidableEq, Repr

def Level.name : Level → String
  | error => "ERROR"
  | warn => "WARN"
  | debug => "DEBUG"
  | trace => "TRACE"

/-- Something worth telling. Calls and methods are given by their text. -/
inductive Event where
  /-- A type without declaration was taken for a subclass of the root class. -/
  | assumedRoot (type root : String)
  /-- A non-virtual call was left alone. -/
  | keptSpecial (callee method : String)
  | unresolvedOwner (owner method : String) (fault : Fault)
  /-- No candidate has the shape of a call. -/
  | noMatch (callee : String)
  /-- The objectives of a call were registered. -/
  | registered (category template : String)
  | substituted (kind callee method : String) (line : Nat) (target : String)
  /-- A nested attribute was dropped because its offsets are not understood. -/
  | droppedAttribute (name : UInt16)
  | summary (calls methods : Nat)
  deriving DecidableEq, Repr

namespace Event

def level : Event → Level
  | unresolvedOwner .. => .error
  | droppedAttribute .. => .warn
  | registered .. | substituted .. | summary .. => .debug
  | assumedRoot .. | keptSpecial .. | noMatch .. => .trace

def text : Event → String
  | assumedRoot type root => s!"{type} is not declared, assuming it extends {root}"
  | keptSpecial callee method => s!"Keeping invokespecial {callee} in {method}"
  | unresolvedOwner owner method fault =>
    let reason := fault.message
    s!"Cannot resolve {owner} called from {method}: {reason}"
  | noMatch callee => s!"No replacement matches {callee}"
  | registered category template => s!"Registered {category} objectives for {template}"
  | substituted kind callee method line target =>
    s!"Replacing {kind} {callee} in {method} (line {line}) with {target}"
  | droppedAttribute name =>
    s!"Dropping nested Code attribute #{name} after bytecode offsets moved"
  | summary calls methods => s!"Replaced {calls} call sites in {methods} methods"

/-- The line that stands for an event in a log. -/
def line (event : Event) : String := s!"{event.level.name} {event.text}"

end Event

end CallProbe
