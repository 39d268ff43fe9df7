import CallProbe.CallSite.Weaving
import CallProbe.Instruction.Decode
import CallProbe.Instruction.Emission
import CallProbe.Instrumentation.Access
import CallProbe.MethodBody.Codec
import CallProbe.MethodBody.Relocation

/-!
# Instrumenting a method

A method is prepared against a pool that does not change: its body is read, its
stream is woven. Only if a call was substituted is the stream encoded into the pool
and everything in the body moved along; otherwise the method keeps its bytes. A
method that fails leaves the pool as it was.
-/

namespace CallProbe

structure MethodSource where
  className : String
  name : String
  descriptor : String
  access : AccessFlags
  code : Option Bytes
  deriving DecidableEq, Repr

structure InstrumentedMethod where
  name : String
  descriptor : String
  code : Option Bytes
  substituted : Nat
  deriving DecidableEq, Repr

namespace MethodSource

def unchanged (method : MethodSource) : InstrumentedMethod :=
  { name := method.name, descriptor := method.descriptor, code := method.code, substituted := 0 }

/-- The method as it is shown. -/
def shown (method : MethodSource) : String :=
  method.className ++ "." ++ method.name ++ method.descriptor

/-- The method as a place of calls. -/
def context (method : MethodSource) (maxStack : UInt16) : MethodContext :=
  { className := method.className, name := method.name, descriptor := method.descriptor
    maxStack }

end MethodSource

/-! ## Preparing -/

/-- A body with its woven stream. -/
structure PreparedMethod where
  body : MethodBody
  woven : WovenMethod

/-- What came of preparing methods, with the identifiers and events on the way. -/
structure Preparation (α : Type) where
  outcome : Except Fault α
  identifiers : List String := []
  events : List Event := []

namespace MethodSource

/-- The body of a method and its stream; none for a method without code. -/
def read (method : MethodSource) (pool : Pool) :
    Except Fault (Option (MethodBody × List Instruction)) :=
  match method.code with
  | none => .ok none
  | some code => do
    if method.access.isBodyless then throw (.malformed (.bodylessWithCode method.shown))
    let body ← MethodBody.ofBytes pool code
    return some (body, ← body.stream pool)

/-- Reads a method and weaves its stream. -/
def prepare (method : MethodSource) (weaver : Weaver) (pool : Pool) :
    Preparation (Option PreparedMethod) :=
  match method.read pool with
  | .error fault => { outcome := .error fault }
  | .ok none => { outcome := .ok none }
  | .ok (some (body, stream)) =>
    let weaving := weaver.weave (method.context body.maxStack) stream
    { outcome := weaving.outcome.map fun woven => some { body, woven }
      identifiers := weaving.identifiers
      events := weaving.events }

end MethodSource

/-! ## Finishing -/

/-- What came of finishing methods, and the pool it left. -/
structure Finishing (α : Type) where
  outcome : Except Fault α
  pool : Pool
  events : List Event := []

namespace MethodSource

/-- Encodes the woven stream of a method and moves its body along. -/
def encode (method : MethodSource) (prepared : PreparedMethod) (pool : Pool) :
    Finishing InstrumentedMethod :=
  match encodeStream prepared.woven.stream pool with
  | (.error fault, pool) => { outcome := .error fault, pool }
  | (.ok encoded, pool) =>
    let (moved, events) := prepared.body.relocate encoded.code (encoded.offsets[·]?)
    let outcome := do
      let body ← moved.complete
      let code ← { body with maxStack := prepared.woven.maxStack }.encode
      return {
        name := method.name
        descriptor := method.descriptor
        code := some code
        substituted := prepared.woven.substituted }
    { outcome, pool, events }

/-- Encodes a prepared method if a call was substituted. -/
def finish (method : MethodSource) (prepared : Option PreparedMethod) (pool : Pool) :
    Finishing InstrumentedMethod :=
  match prepared with
  | none => { outcome := .ok method.unchanged, pool }
  | some prepared =>
    if prepared.woven.substituted = 0 then { outcome := .ok method.unchanged, pool }
    else method.encode prepared pool

end MethodSource

/-- What came of instrumenting, with the pool and the store afterwards. -/
structure Instrumentation (α : Type) where
  outcome : Except Fault α
  pool : Pool
  store : ObjectiveStore
  events : List Event := []

/-- Keeps the old pool unless everything went well. -/
def Finishing.settle {α : Type} (finishing : Finishing α) (before : Pool) : Pool :=
  match finishing.outcome with
  | .ok _ => finishing.pool
  | .error _ => before

/-- Instruments a method. Objectives that were registered stay so even if the method fails. -/
def Weaver.instrument (weaver : Weaver) (method : MethodSource) (pool : Pool)
    (store : ObjectiveStore) : Instrumentation InstrumentedMethod :=
  let preparation := method.prepare weaver pool
  let store := store.registerAll preparation.identifiers
  match preparation.outcome with
  | .error fault => { outcome := .error fault, pool, store, events := preparation.events }
  | .ok prepared =>
    let finishing := method.finish prepared pool
    { outcome := finishing.outcome
      pool := finishing.settle pool
      store
      events := preparation.events ++ finishing.events }

end CallProbe
