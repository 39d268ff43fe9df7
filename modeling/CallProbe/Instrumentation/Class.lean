import CallProbe.Instrumentation.Method

/-!
# Instrumenting a class

All methods of a class are prepared against the pool as it was, then finished one
after the other in a common pool. The first fault ends the whole class and leaves
the pool as it was.
-/

namespace CallProbe

/-- Prepares methods in order, up to the first that fails. -/
def Weaver.prepareAll (weaver : Weaver) (pool : Pool) :
    List MethodSource → Preparation (List (MethodSource × Option PreparedMethod))
  | [] => { outcome := .ok [] }
  | method :: rest =>
    let first := method.prepare weaver pool
    match first.outcome with
    | .error fault => { first with outcome := .error fault }
    | .ok prepared =>
      let others := weaver.prepareAll pool rest
      { outcome := others.outcome.map ((method, prepared) :: ·)
        identifiers := first.identifiers ++ others.identifiers
        events := first.events ++ others.events }

/-- Finishes methods in order, up to the first that fails. -/
def finishAll (pool : Pool) :
    List (MethodSource × Option PreparedMethod) → Finishing (List InstrumentedMethod)
  | [] => { outcome := .ok [], pool }
  | (method, prepared) :: rest =>
    let first := method.finish prepared pool
    match first.outcome with
    | .error fault => { first with outcome := .error fault }
    | .ok instrumented =>
      let others := finishAll first.pool rest
      { outcome := others.outcome.map (instrumented :: ·)
        pool := others.pool
        events := first.events ++ others.events }

/-- What is told of a finished class. -/
def classSummary (methods : List InstrumentedMethod) : List Event :=
  let calls := methods.foldr (fun method calls => method.substituted + calls) 0
  if calls = 0 then [] else [.summary calls (methods.countP (0 < ·.substituted))]

/-- Instruments the methods of a class. Objectives that were registered stay so even if the class
fails. -/
def Weaver.instrumentAll (weaver : Weaver) (methods : List MethodSource) (pool : Pool)
    (store : ObjectiveStore) : Instrumentation (List InstrumentedMethod) :=
  let preparation := weaver.prepareAll pool methods
  let store := store.registerAll preparation.identifiers
  match preparation.outcome with
  | .error fault => { outcome := .error fault, pool, store, events := preparation.events }
  | .ok prepared =>
    let finishing := finishAll pool prepared
    let summary := finishing.outcome.toOption.elim [] classSummary
    { outcome := finishing.outcome
      pool := finishing.settle pool
      store
      events := preparation.events ++ finishing.events ++ summary }

end CallProbe
