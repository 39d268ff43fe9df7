import CallProbe.CallSite.Weaving
import CallProbe.Proofs.Objective.History

/-!
# Walks that are repeated

A walk registers what a call names before it goes on to the next event, and may end at any
event. Its store is written all along and never read: two stores see the same walk, and a store
that has seen it once has nothing to learn from it.
-/

namespace CallProbe

namespace Weaver

variable {weaver : Weaver} {method : MethodContext} {stream : List Instruction}

/-- What walks over the same stream have to do with their stores. -/
structure Repeatable (weaver : Weaver) (method : MethodContext) (stream : List Instruction) :
    Prop where
  onTheWay : ∀ store, weaver.weaveThrough method {} store stream =
    weaver.weaveInto method stream store
  /-- Two stores see the same walk, and are told the same. -/
  independent : ∀ store other, (weaver.weaveThrough method {} store stream).1 =
    (weaver.weaveThrough method {} other stream).1
  told : ∃ ids, ∀ store, (weaver.weaveThrough method {} store stream).2 = store.registerAll ids
  /-- A second walk gives the same result and leaves the very store that it was given. -/
  again : ∀ store, weaver.weaveThrough method {} (weaver.weaveThrough method {} store stream).2
    stream = weaver.weaveThrough method {} store stream
  /-- So does a later one, whatever other walks have registered by then. -/
  later : ∀ store between,
    let known := (weaver.weaveThrough method {} store stream).2.registerAll between
    weaver.weaveThrough method {} known stream =
      ((weaver.weaveThrough method {} store stream).1, known)

/-- Every walk can be repeated, also one that fails. -/
theorem weaveThrough_repeatable (weaver : Weaver) (method : MethodContext)
    (stream : List Instruction) : weaver.Repeatable method stream := by
  have hlater (store : ObjectiveStore) (between : List String) :
      weaver.weaveInto method stream
          ((weaver.weaveInto method stream store).2.registerAll between) =
        ((weaver.weaveInto method stream store).1,
          (weaver.weaveInto method stream store).2.registerAll between) :=
    congrArg (_, ·) (ObjectiveStore.registerAll_again _ between)
  refine ⟨weaveThrough_eq_weaveInto stream, ?_, ?_, ?_, ?_⟩
  · intro store other
    rw [weaveThrough_eq_weaveInto, weaveThrough_eq_weaveInto]
    rfl
  · refine ⟨(weaver.weave method stream).identifiers, fun store => ?_⟩
    rw [weaveThrough_eq_weaveInto]
    rfl
  · intro store
    rw [weaveThrough_eq_weaveInto, weaveThrough_eq_weaveInto]
    exact hlater store []
  · intro store between
    rw [weaveThrough_eq_weaveInto]
    dsimp only
    rw [weaveThrough_eq_weaveInto]
    exact hlater store between

end Weaver

end CallProbe
