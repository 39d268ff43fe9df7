import CallProbe.CallSite.Position
import CallProbe.CallSite.Selection
import CallProbe.Objective.Identifier
import CallProbe.Objective.Store

/-!
# Weaving substitutes into a stream

One walk over the events of a method. A call that has a substitute becomes two
instructions: the correlation id is pushed, then the substitute is called in place of
the method; receiver and arguments stay where they are on the stack. The identifiers
to be registered are part of the result, so the walk does not depend on a store.
A walk that registers them on the way comes to the same.
-/

namespace CallProbe

/-- Stack slots the correlation id needs. It is consumed at once, so the calls of a method share
them. -/
def extraStackSlots : Nat := 1

/-- The stack depth of a method whose calls are substituted. -/
def deepenStack (depth : UInt16) : Except Fault UInt16 :=
  if depth.toNat + extraStackSlots ≤ maxStackDepth then
    .ok (UInt16.ofNat (depth.toNat + extraStackSlots))
  else .error (.stackOverflow depth)

/-- A stream with substituted calls. -/
structure WovenMethod where
  stream : List Instruction
  maxStack : UInt16
  substituted : Nat
  deriving DecidableEq, Repr

/-- How far a walk has come; the lists hold the last item first. -/
structure WeavingState where
  position : SourcePosition := {}
  stream : List Instruction := []
  substituted : Nat := 0
  identifiers : List String := []
  events : List Event := []

/-- What came of a walk, however it ended: the identifiers of the substituted calls and the
events, in stream order. -/
structure Weaving where
  outcome : Except Fault WovenMethod
  identifiers : List String
  events : List Event

def Candidate.call (candidate : Candidate) : Call :=
  Call.new .static candidate.declaring candidate.name candidate.descriptor.text

namespace WeavingState

def keep (state : WeavingState) (instruction : Instruction) : WeavingState :=
  { state with stream := instruction :: state.stream }

def tell (state : WeavingState) (events : List Event) : WeavingState :=
  { state with events := events.reverse ++ state.events }

/-- Pushes the correlation id of a call that `candidate` stands in for: the template of its newly
registered objectives, or nothing where none are registered. -/
def pushCorrelation (state : WeavingState) (settings : Settings) (method : MethodContext)
    (candidate : Candidate) : WeavingState :=
  if settings.register then
    let (index, position) := state.position.claim
    let template := Objective.template method.className position.line index
    let registered := Objective.identifiers template candidate.category
    { state with
      position
      stream := .loadString template :: state.stream
      identifiers := registered.reverse ++ state.identifiers
      events := .registered candidate.category.name template :: state.events }
  else state.keep (.simple Opcode.aconstNull)

/-- Puts a candidate in the place of a call. -/
def substitute (state : WeavingState) (settings : Settings) (method : MethodContext) (call : Call)
    (candidate : Candidate) : WeavingState :=
  let pushed := state.pushCorrelation settings method candidate
  let event := Event.substituted call.kind.name call.callee method.place pushed.position.line
    (candidate.declaring ++ "." ++ candidate.name)
  { pushed with
    stream := .invoke candidate.call :: pushed.stream
    substituted := pushed.substituted + 1
    events := event :: pushed.events }

/-- What a walk leaves behind when it ends with `outcome`. -/
def finish (state : WeavingState) (outcome : Except Fault WovenMethod) : Weaving :=
  { outcome, identifiers := state.identifiers.reverse, events := state.events.reverse }

end WeavingState

namespace Weaver

/-- Walks on over the rest of a stream. -/
def weaveFrom (weaver : Weaver) (method : MethodContext) (state : WeavingState) :
    List Instruction → Weaving
  | [] =>
    state.finish do
      return {
        stream := state.stream.reverse
        maxStack := ← deepenStack method.maxStack
        substituted := state.substituted }
  | .line line start :: rest =>
    let state := { state with position := state.position.atLine line.toNat }
    weaver.weaveFrom method (state.keep (.line line start)) rest
  | .invoke call :: rest =>
    let selection := weaver.select method call
    let state := state.tell selection.events
    match selection.outcome with
    | .error fault => state.finish (.error fault)
    | .ok none => weaver.weaveFrom method (state.keep (.invoke call)) rest
    | .ok (some candidate) =>
      weaver.weaveFrom method (state.substitute weaver.settings method call candidate) rest
  | instruction :: rest => weaver.weaveFrom method (state.keep instruction) rest

def weave (weaver : Weaver) (method : MethodContext) (stream : List Instruction) : Weaving :=
  weaver.weaveFrom method {} stream

/-- Walks over the stream of a method and registers its identifiers, those of a walk that fails
too. -/
def weaveInto (weaver : Weaver) (method : MethodContext) (stream : List Instruction)
    (store : ObjectiveStore) : Weaving × ObjectiveStore :=
  let weaving := weaver.weave method stream
  (weaving, store.registerAll weaving.identifiers)

/-! ## Registering on the way -/

/-- What an event is replaced with, if it is. -/
def chosen? (weaver : Weaver) (method : MethodContext) : Instruction → Option Candidate
  | .invoke call =>
    match (weaver.select method call).outcome with
    | .ok candidate => candidate
    | .error _ => none
  | _ => none

/-- What a walk does with the next event: how far it is behind it, and why it ends there. -/
def visit (weaver : Weaver) (method : MethodContext) (state : WeavingState) :
    Instruction → WeavingState × Option Fault
  | .line line start =>
    ({ state with position := state.position.atLine line.toNat }.keep (.line line start), none)
  | .invoke call =>
    let selection := weaver.select method call
    let state := state.tell selection.events
    match selection.outcome with
    | .error fault => (state, some fault)
    | .ok none => (state.keep (.invoke call), none)
    | .ok (some candidate) => (state.substitute weaver.settings method call candidate, none)
  | instruction => (state.keep instruction, none)

/-- The identifiers that the next event of a walk names. -/
def named (weaver : Weaver) (method : MethodContext) (position : SourcePosition)
    (event : Instruction) : List String :=
  match weaver.chosen? method event with
  | some candidate =>
    if weaver.settings.register then
      Objective.identifiers (Objective.template method.className position.line position.index)
        candidate.category
    else []
  | none => []

/-- Walks on over the rest of a stream and registers the identifiers of each event behind it. -/
def weaveThrough (weaver : Weaver) (method : MethodContext) (state : WeavingState)
    (store : ObjectiveStore) : List Instruction → Weaving × ObjectiveStore
  | [] => (weaver.weaveFrom method state [], store)
  | event :: rest =>
    match weaver.visit method state event with
    | (next, some fault) => (next.finish (.error fault), store)
    | (next, none) =>
      weaver.weaveThrough method next
        (store.registerAll (weaver.named method state.position event)) rest

variable {weaver : Weaver} {method : MethodContext} {state : WeavingState}

/-- A walk is its visits, one after the other. -/
theorem weaveFrom_cons (event : Instruction) (rest : List Instruction) :
    weaver.weaveFrom method state (event :: rest) =
      match weaver.visit method state event with
      | (next, some fault) => next.finish (.error fault)
      | (next, none) => weaver.weaveFrom method next rest := by
  cases event with
  | invoke call =>
      simp only [weaveFrom, visit]
      cases (weaver.select method call).outcome with
      | error fault => rfl
      | ok selected => cases selected <;> rfl
  | _ => rfl

theorem substitute_identifiers (call : Call) {candidate : Candidate}
    (h : weaver.chosen? method (.invoke call) = some candidate) :
    (state.substitute weaver.settings method call candidate).identifiers.reverse =
      state.identifiers.reverse ++ weaver.named method state.position (.invoke call) := by
  unfold named WeavingState.substitute WeavingState.pushCorrelation
  rw [h]
  cases weaver.settings.register <;> simp [SourcePosition.claim, WeavingState.keep]

/-- A visit adds the identifiers of its event. -/
theorem visit_identifiers (event : Instruction) :
    (weaver.visit method state event).1.identifiers.reverse =
      state.identifiers.reverse ++ weaver.named method state.position event := by
  cases event with
  | invoke call =>
      simp only [visit]
      cases hselect : (weaver.select method call).outcome with
      | error fault => simp [named, chosen?, hselect, WeavingState.tell]
      | ok selected =>
          cases selected with
          | none => simp [named, chosen?, hselect, WeavingState.tell, WeavingState.keep]
          | some candidate =>
              have hchosen : weaver.chosen? method (.invoke call) = some candidate := by
                simp [chosen?, hselect]
              exact substitute_identifiers call hchosen
  | _ => simp [visit, named, chosen?, WeavingState.keep]

theorem named_of_fault {event : Instruction} {next : WeavingState} {fault : Fault}
    (h : weaver.visit method state event = (next, some fault)) :
    weaver.named method state.position event = [] := by
  cases event with
  | invoke call =>
      simp only [visit] at h
      cases hselect : (weaver.select method call).outcome with
      | error other => simp [named, chosen?, hselect]
      | ok selected => cases selected <;> simp [hselect] at h
  | _ => rfl

/-- The store has what the walk has named so far, wherever the walk stands and wherever it ends. -/
theorem weaveThrough_eq (state : WeavingState) (store : ObjectiveStore)
    (stream : List Instruction) :
    weaver.weaveThrough method state (store.registerAll state.identifiers.reverse) stream =
      (weaver.weaveFrom method state stream,
        store.registerAll (weaver.weaveFrom method state stream).identifiers) := by
  induction stream generalizing state with
  | nil => rfl
  | cons event rest ih =>
      have hnamed : (weaver.visit method state event).1.identifiers.reverse =
          state.identifiers.reverse ++ weaver.named method state.position event :=
        visit_identifiers event
      rw [weaveThrough, weaveFrom_cons]
      rcases hvisit : weaver.visit method state event with ⟨next, _ | fault⟩
      · rw [hvisit] at hnamed
        dsimp only
        rw [← ObjectiveStore.registerAll_append, ← hnamed]
        exact ih next
      · -- The event that ends a walk names nothing.
        rw [hvisit, named_of_fault hvisit, List.append_nil] at hnamed
        dsimp only [WeavingState.finish] at hnamed ⊢
        rw [hnamed]

/-- It comes to the same whether identifiers are registered on the way or at the end. -/
theorem weaveThrough_eq_weaveInto (stream : List Instruction) (store : ObjectiveStore) :
    weaver.weaveThrough method {} store stream = weaver.weaveInto method stream store :=
  weaveThrough_eq {} store stream

end Weaver

end CallProbe
