import CallProbe.Proofs.CallSite.Templates
import CallProbe.Proofs.Objective.Registration

/-!
# A walk and its store

The whole result of a walk that registers with a store, also of one that fails: what
comes out, which call ends it, and what the store has gained by then.
-/

namespace CallProbe

open Outcome

namespace Weaver

variable {weaver : Weaver} {method : MethodContext} {stream : List Instruction}
  {store : ObjectiveStore}

/-- What a walk over `stream` that registers with `store` has to come to. -/
structure Folds (weaver : Weaver) (method : MethodContext) (stream : List Instruction)
    (store : ObjectiveStore) (weaving : Weaving) (after : ObjectiveStore) : Prop where
  /-- The walk ends well if every call can be decided and there is a stack slot to spare. -/
  succeeds : (∃ woven, weaving.outcome = .ok woven) ↔
    (∀ call, .invoke call ∈ stream →
        ∃ selected, (weaver.select method call).outcome = .ok selected) ∧
      method.maxStack.toNat < 65535
  /-- Then every event is in its place, a replaced call as a push and a call of its substitute. -/
  woven : ∀ woven, weaving.outcome = .ok woven →
    woven.stream = eachAfter (weaver.pieceAfter method) [] stream ∧
      woven.substituted = stream.countP (weaver.chosen? method · |>.isSome) ∧
      woven.maxStack.toNat = method.maxStack.toNat + 1
  /-- What is pushed tells the class, the line, and how many calls of the line came before. -/
  templates : ∀ before, before <+: stream →
    weaver.templateAfter method before =
      Objective.template method.className (currentLine before) (weaver.ordinal method before)
  /-- Otherwise the first call that cannot be decided says why. -/
  refused : ∀ front call back fault, stream = front ++ .invoke call :: back →
    (∀ event ∈ front, weaver.refusal? method event = none) →
    (weaver.select method call).outcome = .error fault → weaving.outcome = .error fault
  /-- Without such a call it was the stack. -/
  tooDeep : (∀ event ∈ stream, weaver.refusal? method event = none) →
    method.maxStack.toNat = 65535 → weaving.outcome = .error (.stackOverflow method.maxStack)
  /-- However it ends, the identifiers of the calls replaced up to there are in the store. -/
  registered : after.ids.toList = store.ids.toList ++
    ((eachAfter (weaver.identifiersAfter method) [] (weaver.decided method stream)).filter
      (!store.contains ·)).eraseDups

theorem refusal?_eq_none_iff :
    (∀ event ∈ stream, weaver.refusal? method event = none) ↔
      ∀ call, .invoke call ∈ stream →
        ∃ selected, (weaver.select method call).outcome = .ok selected := by
  constructor
  · intro h call hcall
    have hpass := h _ hcall
    cases hselect : (weaver.select method call).outcome with
    | error fault => simp [refusal?, hselect] at hpass
    | ok selected => exact ⟨selected, rfl⟩
  · intro h event hevent
    cases event with
    | invoke call =>
        rcases h call hevent with ⟨selected, hselect⟩
        simp [refusal?, hselect]
    | _ => rfl

/-- The outcome of a walk whose calls can all be decided. -/
theorem weave_outcome_of_decided (h : ∀ event ∈ stream, weaver.refusal? method event = none) :
    (weaver.weave method stream).outcome = (deepenStack method.maxStack).map fun maxStack =>
      { stream := eachAfter (weaver.pieceAfter method) [] stream
        maxStack
        substituted := stream.countP (weaver.chosen? method · |>.isSome) } := by
  have hwalked : weaver.Walked method [] {} stream _ := weave_walked stream
  rw [hwalked.outcome, List.findSome?_eq_none_iff.2 h]
  simp

theorem weave_succeeds (h : ∀ event ∈ stream, weaver.refusal? method event = none)
    (hdepth : method.maxStack.toNat < 65535) :
    ∃ woven, (weaver.weave method stream).outcome = .ok woven := by
  have hdeep : deepenStack method.maxStack = .ok (UInt16.ofNat (method.maxStack.toNat + 1)) :=
    deepenStack_eq_ok_iff.2 (UInt16.toNat_ofNat_of_lt' (by show _ < 65536; omega))
  rw [weave_outcome_of_decided h, hdeep]
  exact ⟨_, rfl⟩

/-- A walk without a call that ends it, for a stack that cannot get deeper. -/
theorem weave_outcome_of_full (h : ∀ event ∈ stream, weaver.refusal? method event = none)
    (hfull : method.maxStack.toNat = 65535) :
    (weaver.weave method stream).outcome = .error (.stackOverflow method.maxStack) := by
  have hdeepen : deepenStack method.maxStack = .error (.stackOverflow method.maxStack) := by
    unfold deepenStack extraStackSlots maxStackDepth
    exact if_neg (by omega)
  rw [weave_outcome_of_decided h, hdeepen]
  rfl

/-- Of fewer calls than there are numbers, a walk makes what it has to. -/
theorem weaveInto_folds (hcalls : stream.countP (·.isInvoke) < 4294967296) :
    weaver.Folds method stream store (weaver.weaveInto method stream store).1
      (weaver.weaveInto method stream store).2 where
  succeeds := by
    rw [← refusal?_eq_none_iff]
    constructor
    · intro h
      rcases h with ⟨woven, hok⟩
      have hwove := weave_ok hok
      have hdeep := deepenStack_eq_ok_iff.1 hwove.maxStack
      have hlt : woven.maxStack.toNat < 65536 := woven.maxStack.toNat_lt
      exact ⟨hwove.decided, by omega⟩
    · intro h
      exact weave_succeeds h.1 h.2
  woven := by
    intro woven hok
    have hwove := weave_ok hok
    exact ⟨hwove.stream, hwove.substituted, deepenStack_eq_ok_iff.1 hwove.maxStack⟩
  templates := fun before hbefore => templateAfter_eq hcalls hbefore
  refused := by
    intro front call back fault hstream hfront hselect
    have hwalked : weaver.Walked method [] {} stream _ := weave_walked stream
    have hfirst : stream.findSome? (weaver.refusal? method) = some fault := by
      rw [hstream, List.findSome?_append, List.findSome?_eq_none_iff.2 hfront]
      simp [refusal?, hselect]
    refine hwalked.outcome.trans ?_
    rw [hfirst]
  tooDeep := weave_outcome_of_full
  registered := by
    have hwalked : weaver.Walked method [] {} stream _ := weave_walked stream
    rw [weaveInto, ObjectiveStore.ids_registerAll, hwalked.identifiers]
    rfl

/-- The loop registers what its two lines name, the header's calls together. -/
theorem weaveInto_loop :
    loopStream.countP (·.isInvoke) < 4294967296 ∧
      (∃ woven, (equalsWeaver.weaveInto loopMethod loopStream .empty).1.outcome = .ok woven ∧
        woven.substituted = 3 ∧ woven.maxStack = 5) ∧
      (equalsWeaver.weaveInto loopMethod loopStream .empty).2.ids.toList =
        ["MethodReplacement_at_p.Loop_00012_0_BOOLEAN_true",
          "MethodReplacement_at_p.Loop_00012_0_BOOLEAN_false",
          "MethodReplacement_at_p.Loop_00013_0_BOOLEAN_true",
          "MethodReplacement_at_p.Loop_00013_0_BOOLEAN_false"] := by
  have hfolds : equalsWeaver.Folds loopMethod loopStream .empty _ _ := weaveInto_folds (by decide)
  have hdecided : ∀ call, .invoke call ∈ loopStream →
      (equalsWeaver.select loopMethod call).outcome = .ok (some equalsCandidate) := by
    intro call hcall
    have hequals : call = equalsCall none := by simpa [loopStream] using hcall
    rw [hequals, select_equalsCall]
  have hok := hfolds.succeeds.2 ⟨fun call hcall => ⟨_, hdecided call hcall⟩, by decide⟩
  rcases hok with ⟨woven, hok⟩
  rcases hfolds.woven woven hok with ⟨-, hsubstituted, hstack⟩
  have hline (number : UInt16) (start : Label) :
      equalsWeaver.chosen? loopMethod (.line number start) = none := rfl
  refine ⟨by decide, ⟨woven, hok, ?_, UInt16.toNat_inj.1 hstack⟩, ?_⟩
  · rw [hsubstituted]
    simp [loopStream, chosen?_equalsCall, hline]
  · have hall : equalsWeaver.decided loopMethod loopStream = loopStream := by
      simp [loopStream, decided, refusal?, select_equalsCall]
    have hheader : Objective.identifiers (Objective.template "p/Loop" 12 0) .boolean =
        ["MethodReplacement_at_p.Loop_00012_0_BOOLEAN_true",
          "MethodReplacement_at_p.Loop_00012_0_BOOLEAN_false"] := by cbv
    have hbody : Objective.identifiers (Objective.template "p/Loop" 13 0) .boolean =
        ["MethodReplacement_at_p.Loop_00013_0_BOOLEAN_true",
          "MethodReplacement_at_p.Loop_00013_0_BOOLEAN_false"] := by cbv
    have hidentifiers : eachAfter (equalsWeaver.identifiersAfter loopMethod) [] loopStream =
        Objective.identifiers (Objective.template "p/Loop" 12 0) .boolean ++
          (Objective.identifiers (Objective.template "p/Loop" 13 0) .boolean ++
            Objective.identifiers (Objective.template "p/Loop" 12 0) .boolean) := by
      -- Every call is the first one on its line.
      have htemplate {front : List Instruction} {line : Nat} (hat : currentLine front = line)
          (hfirst : equalsWeaver.ordinal loopMethod front = 0) :
          equalsWeaver.templateAfter loopMethod front = Objective.template "p/Loop" line 0 := by
        rw [templateAfter, hat, hfirst]
        rfl
      have hregister : equalsWeaver.settings.register = true := rfl
      simp only [loopStream, eachAfter, identifiersAfter, chosen?_equalsCall, hline, hregister,
        if_true]
      rw [@htemplate _ 12 rfl rfl, @htemplate _ 13 rfl rfl, @htemplate _ 12 rfl rfl,
        List.append_nil, List.nil_append, List.nil_append, List.nil_append]
      rfl
    rw [hfolds.registered, hall, hidentifiers, hheader, hbody,
      List.filter_eq_self.2 fun id _ => by simp [ObjectiveStore.contains, ObjectiveStore.empty]]
    rfl

end Weaver

end CallProbe
