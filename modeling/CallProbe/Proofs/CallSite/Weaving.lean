import CallProbe.CallSite.Weaving
import CallProbe.Proofs.Outcome
import Mathlib.Data.List.TakeWhile

/-!
# What weaving does to a stream

The walk keeps a position and three growing lists. Stated without them: every event is
replaced by a piece that depends on nothing but the event and what stood before it.
`Weaver.Reached` ties the position of the walk to the events it has passed.
-/

namespace CallProbe

open Outcome

namespace Instruction

/-- The number of the source line that starts. -/
def startedLine? : Instruction → Option Nat
  | line number _ => some number.toNat
  | _ => none

end Instruction

/-- The source line at the end of some events, zero before the first line. -/
def currentLine (before : List Instruction) : Nat :=
  (before.reverse.findSome? Instruction.startedLine?).getD 0

/-- The events since the last line has started, last one first. -/
def sinceLine (before : List Instruction) : List Instruction :=
  before.reverse.takeWhile (·.startedLine?.isNone)

namespace Weaver

variable (weaver : Weaver) (method : MethodContext)

/-- Why a walk cannot go past an event. -/
def refusal? : Instruction → Option Fault
  | .invoke call =>
    match (weaver.select method call).outcome with
    | .ok _ => none
    | .error fault => some fault
  | _ => none

/-- The events in front of the first call that cannot be decided. -/
def decided (stream : List Instruction) : List Instruction :=
  stream.takeWhile (weaver.refusal? method · |>.isNone)

/-- The calls that were replaced since the last line has started. -/
def ordinal (before : List Instruction) : Nat :=
  (sinceLine before).countP (weaver.chosen? method · |>.isSome)

/-- The template of a call that is replaced behind some events. -/
def templateAfter (before : List Instruction) : String :=
  Objective.template method.className (currentLine before)
    (min (weaver.ordinal method before) SourcePosition.maxIndex)

/-- What is pushed for a call that is replaced behind some events. -/
def correlationAfter (before : List Instruction) : Instruction :=
  if weaver.settings.register then .loadString (weaver.templateAfter method before)
  else .simple Opcode.aconstNull

/-- What comes out for an event behind others. -/
def pieceAfter (before : List Instruction) (event : Instruction) : List Instruction :=
  match weaver.chosen? method event with
  | some candidate => [weaver.correlationAfter method before, .invoke candidate.call]
  | none => [event]

/-- The identifiers that an event behind others registers. -/
def identifiersAfter (before : List Instruction) (event : Instruction) : List String :=
  match weaver.chosen? method event with
  | some candidate =>
    if weaver.settings.register then
      Objective.identifiers (weaver.templateAfter method before) candidate.category
    else []
  | none => []

/-- The results of `after` for all events, each behind those before it. -/
def eachAfter {α : Type} (after : List Instruction → Instruction → List α) :
    List Instruction → List Instruction → List α
  | _, [] => []
  | before, event :: rest => after before event ++ eachAfter after (before ++ [event]) rest

/-- The walk stands behind `before`. -/
structure Reached (before : List Instruction) (position : SourcePosition) : Prop where
  line : position.line = currentLine before
  index : weaver.settings.register = true →
    position.index = min (weaver.ordinal method before) SourcePosition.maxIndex

/-- The walk from `state` to `next` over an event behind `before`. -/
structure Steps (before : List Instruction) (event : Instruction) (state next : WeavingState) :
    Prop where
  reached : weaver.Reached method (before ++ [event]) next.position
  stream : next.stream.reverse = state.stream.reverse ++ weaver.pieceAfter method before event
  substituted : next.substituted =
    state.substituted + [event].countP (weaver.chosen? method · |>.isSome)
  identifiers : next.identifiers.reverse =
    state.identifiers.reverse ++ weaver.identifiersAfter method before event

variable {weaver method} {before rest : List Instruction} {state : WeavingState}

/-- The new depth is one more, if it has 16 bits. -/
theorem deepenStack_eq_ok_iff {depth deep : UInt16} :
    deepenStack depth = .ok deep ↔ deep.toNat = depth.toNat + 1 := by
  have hlt : deep.toNat < 65536 := deep.toNat_lt
  unfold deepenStack extraStackSlots maxStackDepth
  split
  · rename_i hle
    have hback : (UInt16.ofNat (depth.toNat + 1)).toNat = depth.toNat + 1 :=
      UInt16.toNat_ofNat_of_lt' (Nat.lt_succ_of_le hle)
    rw [Except.ok.injEq, ← UInt16.toNat_inj, hback]
    exact eq_comm
  · rename_i hgt
    simp only [reduceCtorEq, false_iff]
    omega

/-! ## Pieces -/

theorem eachAfter_append {α : Type} (after : List Instruction → Instruction → List α)
    (before front back : List Instruction) :
    eachAfter after before (front ++ back) =
      eachAfter after before front ++ eachAfter after (before ++ front) back := by
  induction front generalizing before with
  | nil => simp [eachAfter]
  | cons event front ih => simp [eachAfter, ih]

theorem mem_eachAfter {α : Type} {after : List Instruction → Instruction → List α}
    {before stream : List Instruction} {item : α} (h : item ∈ eachAfter after before stream) :
    ∃ front, ∃ event ∈ stream, item ∈ after front event := by
  induction stream generalizing before with
  | nil => cases h
  | cons event rest ih =>
      rcases List.mem_append.1 h with hhead | hrest
      · exact ⟨before, event, List.mem_cons_self, hhead⟩
      · rcases ih hrest with ⟨front, other, hother, hitem⟩
        exact ⟨front, other, List.mem_cons_of_mem _ hother, hitem⟩

theorem select_of_chosen {call : Call} {candidate : Candidate}
    (hchosen : weaver.chosen? method (.invoke call) = some candidate) :
    (weaver.select method call).outcome = .ok (some candidate) := by
  cases hselect : (weaver.select method call).outcome with
  | error fault => simp [chosen?, hselect] at hchosen
  | ok selected => simpa [chosen?, hselect] using hchosen

theorem pieceAfter_of_kept {before : List Instruction} {event : Instruction}
    (h : weaver.chosen? method event = none) :
    weaver.pieceAfter method before event = [event] := by
  rw [pieceAfter, h]

/-- An event is kept, unless it is a call: then it may become a push and another call. -/
theorem pieceAfter_cases (before : List Instruction) (event : Instruction) :
    weaver.pieceAfter method before event = [event] ∨
      ∃ (call : Call) (candidate : Candidate), event = .invoke call ∧
        weaver.pieceAfter method before event =
          [weaver.correlationAfter method before, .invoke candidate.call] := by
  unfold pieceAfter
  cases hchosen : weaver.chosen? method event with
  | none => exact .inl rfl
  | some candidate =>
      cases event with
      | invoke call => exact .inr ⟨call, candidate, rfl, rfl⟩
      | _ => cases hchosen

/-! ## Steps -/

theorem reached_nil : weaver.Reached method [] {} := ⟨rfl, fun _ => rfl⟩

theorem steps_line (number : UInt16) (start : Label) :
    weaver.Steps method before (.line number start) state
      ({ state with position := state.position.atLine number.toNat }.keep
        (.line number start)) := by
  refine ⟨⟨?_, ?_⟩, ?_, rfl, ?_⟩
  · simp [currentLine, List.findSome?_cons, Instruction.startedLine?, SourcePosition.atLine,
      WeavingState.keep]
  · intro _
    simp [ordinal, sinceLine, Instruction.startedLine?, SourcePosition.atLine, WeavingState.keep]
  · simp [pieceAfter, chosen?, WeavingState.keep]
  · simp [identifiersAfter, chosen?, WeavingState.keep]

theorem steps_keep (h : weaver.Reached method before state.position) {event : Instruction}
    (hline : event.startedLine? = none) (hkept : weaver.chosen? method event = none) :
    weaver.Steps method before event state (state.keep event) := by
  refine ⟨⟨?_, ?_⟩, ?_, ?_, ?_⟩
  · rw [WeavingState.keep, h.line]
    simp [currentLine, hline]
  · intro hregister
    rw [WeavingState.keep, h.index hregister]
    simp [ordinal, sinceLine, hline, hkept]
  · simp [pieceAfter, hkept, WeavingState.keep]
  · simp [hkept, WeavingState.keep]
  · simp [identifiersAfter, hkept, WeavingState.keep]

theorem steps_substitute (h : weaver.Reached method before state.position) {call : Call}
    {candidate : Candidate} (hchosen : weaver.chosen? method (.invoke call) = some candidate) :
    weaver.Steps method before (.invoke call) state
      (state.substitute weaver.settings method call candidate) := by
  unfold WeavingState.substitute WeavingState.pushCorrelation
  have hline : currentLine (before ++ [.invoke call]) = currentLine before := by
    simp [currentLine, List.findSome?_cons, Instruction.startedLine?]
  cases hregister : weaver.settings.register with
  | false =>
      refine ⟨⟨by rw [hline]; exact h.line, fun hyes => ?_⟩, ?_, ?_, ?_⟩
      · rw [hregister] at hyes
        cases hyes
      · simp [pieceAfter, correlationAfter, hchosen, hregister, WeavingState.keep]
      · simp [hchosen, WeavingState.keep]
      · simp [identifiersAfter, hchosen, hregister, WeavingState.keep]
  | true =>
      have htemplate : Objective.template method.className state.position.line
          state.position.index = weaver.templateAfter method before := by
        rw [templateAfter, h.line, h.index hregister]
      refine ⟨⟨by rw [hline]; exact h.line, fun _ => ?_⟩, ?_, ?_, ?_⟩
      · have hindex := h.index hregister
        simp [SourcePosition.claim, hindex, ordinal, sinceLine, Instruction.startedLine?, hchosen]
        omega
      · simp [pieceAfter, correlationAfter, hchosen, hregister, SourcePosition.claim, htemplate]
      · simp [hchosen]
      · simp [identifiersAfter, hchosen, hregister, SourcePosition.claim, htemplate]

/-! ## Runs -/

/-- What a walk makes of the events in front of it, however it ends. -/
structure Walked (weaver : Weaver) (method : MethodContext) (before : List Instruction)
    (state : WeavingState) (rest : List Instruction) (weaving : Weaving) : Prop where
  outcome : weaving.outcome =
    match rest.findSome? (weaver.refusal? method) with
    | some fault => .error fault
    | none => (deepenStack method.maxStack).map fun maxStack =>
      { stream := state.stream.reverse ++ eachAfter (weaver.pieceAfter method) before rest
        maxStack
        substituted := state.substituted + rest.countP (weaver.chosen? method · |>.isSome) }
  identifiers : weaving.identifiers = state.identifiers.reverse ++
    eachAfter (weaver.identifiersAfter method) before (weaver.decided method rest)

theorem Steps.walked {event : Instruction} {next : WeavingState} {weaving : Weaving}
    (h : weaver.Steps method before event state next)
    (hpass : weaver.refusal? method event = none)
    (hrest : weaver.Walked method (before ++ [event]) next rest weaving) :
    weaver.Walked method before state (event :: rest) weaving := by
  refine ⟨?_, ?_⟩
  · rw [hrest.outcome, h.stream, h.substituted, List.findSome?_cons, hpass, eachAfter,
      List.append_assoc, Nat.add_assoc, ← List.countP_append, List.singleton_append]
  · have hdecided : weaver.decided method (event :: rest) =
        event :: weaver.decided method rest :=
      List.takeWhile_cons_of_pos (by rw [hpass]; rfl)
    rw [hrest.identifiers, h.identifiers, hdecided, eachAfter, List.append_assoc]

theorem weaveFrom_walked (h : weaver.Reached method before state.position) :
    weaver.Walked method before state rest (weaver.weaveFrom method state rest) := by
  -- `Reached` is what the walk keeps: its position depends on the events passed, not on the way.
  induction rest generalizing before state with
  | nil =>
      refine ⟨?_, by simp [weaveFrom, WeavingState.finish, eachAfter, decided]⟩
      cases hdeepen : deepenStack method.maxStack <;>
        simp [weaveFrom, WeavingState.finish, eachAfter, hdeepen, Except.map, bind, Except.bind,
          pure, Except.pure]
  | cons event rest ih =>
      have hkeep (hline : event.startedLine? = none) (hkept : weaver.chosen? method event = none)
          (hpass : weaver.refusal? method event = none)
          (hwalk : weaver.weaveFrom method state (event :: rest) =
            weaver.weaveFrom method (state.keep event) rest) :
          weaver.Walked method before state (event :: rest)
            (weaver.weaveFrom method state (event :: rest)) := by
        have hstep := steps_keep h hline hkept
        rw [hwalk]
        exact hstep.walked hpass (ih hstep.reached)
      cases event with
      | line number start =>
          have hstep : weaver.Steps method before (.line number start) state _ :=
            steps_line number start
          exact hstep.walked rfl (ih hstep.reached)
      | invoke call =>
          simp only [weaveFrom]
          have htold : weaver.Reached method before
            (state.tell (weaver.select method call).events).position := h
          cases hselect : (weaver.select method call).outcome with
          | error fault =>
              have hrefused : weaver.refusal? method (.invoke call) = some fault := by
                simp [refusal?, hselect]
              refine ⟨?_, ?_⟩
              · rw [List.findSome?_cons, hrefused]
                rfl
              · rw [decided, List.takeWhile_cons_of_neg (by simp [hrefused])]
                simp [eachAfter, WeavingState.finish, WeavingState.tell]
          | ok selected =>
              have hpass : weaver.refusal? method (.invoke call) = none := by
                simp [refusal?, hselect]
              cases selected with
              | none =>
                  have hkept : weaver.chosen? method (.invoke call) = none := by
                    simp [chosen?, hselect]
                  have hstep := steps_keep htold rfl hkept
                  have hwalked := hstep.walked hpass (ih hstep.reached)
                  exact ⟨hwalked.outcome, hwalked.identifiers⟩
              | some candidate =>
                  have hchosen : weaver.chosen? method (.invoke call) = some candidate := by
                    simp [chosen?, hselect]
                  have hstep := steps_substitute htold hchosen
                  have hwalked := hstep.walked hpass (ih hstep.reached)
                  exact ⟨hwalked.outcome, hwalked.identifiers⟩
      | _ => exact hkeep rfl rfl rfl rfl

theorem weave_walked (stream : List Instruction) :
    weaver.Walked method [] {} stream (weaver.weave method stream) :=
  weaveFrom_walked reached_nil

/-- What a walk over a whole stream that ends well has made of it. -/
structure Wove (weaver : Weaver) (method : MethodContext) (events : List Instruction)
    (weaving : Weaving) (woven : WovenMethod) : Prop where
  decided : ∀ event ∈ events, weaver.refusal? method event = none
  stream : woven.stream = eachAfter (weaver.pieceAfter method) [] events
  substituted : woven.substituted = events.countP (weaver.chosen? method · |>.isSome)
  maxStack : deepenStack method.maxStack = .ok woven.maxStack
  identifiers : weaving.identifiers = eachAfter (weaver.identifiersAfter method) [] events

theorem weave_ok {stream : List Instruction} {woven : WovenMethod}
    (hok : (weaver.weave method stream).outcome = .ok woven) :
    weaver.Wove method stream (weaver.weave method stream) woven := by
  have hwalked : weaver.Walked method [] {} stream _ := weave_walked stream
  have houtcome := hwalked.outcome.symm.trans hok
  cases hfirst : stream.findSome? (weaver.refusal? method) with
  | some fault =>
      rw [hfirst] at houtcome
      cases houtcome
  | none =>
      have hpass := List.findSome?_eq_none_iff.1 hfirst
      rw [hfirst, map_eq_ok_iff] at houtcome
      rcases houtcome with ⟨maxStack, hmax, rfl⟩
      refine ⟨hpass, rfl, Nat.zero_add _, hmax, ?_⟩
      have hall : weaver.decided method stream = stream :=
        List.takeWhile_eq_self_iff.2 fun event hevent => by
          rw [hpass event hevent]
          rfl
      rw [hwalked.identifiers, hall]
      rfl

/-! ## A weaver with a single candidate -/

/-- Stands in for `String.equals`. -/
def equalsCandidate : Candidate where
  declaring := "probe/Substitutes"
  name := "equals"
  replaces := "equals"
  forStatic := false
  descriptor :=
    { parameters := [.object "java/lang/String", .object "java/lang/Object",
        .object "java/lang/String"]
      returns := .value .boolean }
  category := .boolean

def equalsProvider : Provider where
  target := "java/lang/String"
  declaring := "probe/Substitutes"
  functions := [equalsCandidate]

def equalsWeaver : Weaver where
  registry := .ofProviders [equalsProvider]
  resolver := fun name => { outcome := .ok { name, ancestors := [] } }
  settings := {}

def loopMethod : MethodContext where
  className := "p/Loop"
  name := "run"
  descriptor := "()V"
  maxStack := 4

/-- A call of `String.equals`, new or read from a pool. -/
def equalsCall (index : Option UInt16) : Call :=
  { Call.new .virtual "java/lang/String" "equals" "(Ljava/lang/Object;)Z" with poolIndex := index }

private theorem candidates_single {provider : Provider} {function : Candidate}
    (h : provider.functions = [function]) :
    (Registry.ofProviders [provider]).candidates { name := provider.target, ancestors := [] }
      function.replaces function.forStatic = [function] := by
  simp [Registry.candidates, Registry.positions, Registry.ofProviders, Registry.candidateAt?,
    CandidateIndex.ofProviders, CandidateIndex.entriesOf, CandidateIndex.insertPosition,
    ResolvedType.lineage, List.eraseReps, List.eraseRepsBy, List.eraseRepsBy.loop, h]

theorem select_equalsCall (index : Option UInt16) :
    equalsWeaver.select loopMethod (equalsCall index) =
      { outcome := .ok (some equalsCandidate) } := by
  have hpass : equalsWeaver.passesOver loopMethod (equalsCall index) = false := by
    simp [passesOver, loopMethod, equalsWeaver, equalsCall, Call.new, Settings.admits,
      MethodContext.classInitializer]
  have hcandidates : equalsWeaver.registry.candidates
      { name := "java/lang/String", ancestors := [] } "equals" false = [equalsCandidate] :=
    @candidates_single equalsProvider equalsCandidate rfl
  have hparse : MethodDescriptor.parse "(Ljava/lang/Object;)Z" =
      .ok { parameters := [.object "java/lang/Object"], returns := .value .boolean } := by cbv
  have haccepts : equalsCandidate.accepts
      { parameters := [.object "java/lang/Object"], returns := .value .boolean } false = true := by
    decide
  have hselect : equalsWeaver.selectAt { name := "java/lang/String", ancestors := [] }
      (equalsCall index) = { outcome := .ok (some equalsCandidate) } := by
    have hname : (equalsCall index).name = "equals" := rfl
    have hkind : (equalsCall index).kind.isStatic = false := rfl
    have hdescriptor : (equalsCall index).descriptor = "(Ljava/lang/Object;)Z" := rfl
    unfold selectAt
    simp only [hname, hkind, hdescriptor, hcandidates, hparse, List.find?_cons, haccepts]
  have hresolve : equalsWeaver.resolver (equalsCall index).owner =
      { outcome := .ok { name := "java/lang/String", ancestors := [] } } := rfl
  have hspecial : (equalsCall index).kind ≠ .special := by
    show InvokeKind.virtual ≠ .special
    decide
  unfold select
  rw [hpass, if_neg Bool.false_ne_true, if_neg hspecial]
  simp only [hresolve, hselect, List.append_nil]

end Weaver

end CallProbe
