import CallProbe.Proofs.CallSite.Interleaving

/-!
# Walks that register nothing

A class that is loaded again is woven without registration, and its calls have to be the ones it
got before. Two walks go over the same stream side by side, and only the first one registers. They
refuse the same calls and replace the same calls: what the first one counts and names goes into
what it pushes and into the store, and is asked for nothing else.
-/

namespace CallProbe

namespace Weaver

/-- The same weaver with registration switched on or off. -/
def registering (weaver : Weaver) (register : Bool) : Weaver :=
  { weaver with settings := { weaver.settings with register } }

/-- What becomes of some events with and without registration: the same, but for what is pushed. -/
inductive Muted (weaver : Weaver) (method : MethodContext) :
    List Instruction → List Instruction → List Instruction → Prop
  | nil : Muted weaver method [] [] []
  | keep {event events loud quiet} : weaver.chosen? method event = none →
    Muted weaver method events loud quiet →
    Muted weaver method (event :: events) (event :: loud) (event :: quiet)
  | replace {event events candidate loud quiet} (template : String) :
    weaver.chosen? method event = some candidate → Muted weaver method events loud quiet →
    Muted weaver method (event :: events) (.loadString template :: .invoke candidate.call :: loud)
      (.simple Opcode.aconstNull :: .invoke candidate.call :: quiet)

/-- In what a stream becomes, `i` is where something is pushed for a replaced call. Up to there,
every event has left one instruction, and one more if it was replaced. -/
def PushedAt (weaver : Weaver) (method : MethodContext) (stream : List Instruction) (i : Nat) :
    Prop :=
  ∃ front event back, stream = front ++ event :: back ∧
    (weaver.chosen? method event).isSome = true ∧
    i = front.length + front.countP (weaver.chosen? method · |>.isSome)

/-- Two streams differ where something is pushed, and nowhere else. -/
structure SameButPushed (weaver : Weaver) (method : MethodContext)
    (stream loud quiet : List Instruction) : Prop where
  length : loud.length = quiet.length
  pushed : ∀ {i}, weaver.PushedAt method stream i → ∃ template,
    loud[i]? = some (.loadString template) ∧ quiet[i]? = some (.simple Opcode.aconstNull)
  elsewhere : ∀ {i}, ¬ weaver.PushedAt method stream i → loud[i]? = quiet[i]?

/-- Two walks end with the same fault, or with methods that differ in their streams at most. -/
inductive SameOutcome (same : List Instruction → List Instruction → Prop) :
    Except Fault WovenMethod → Except Fault WovenMethod → Prop
  | fault (fault : Fault) : SameOutcome same (.error fault) (.error fault)
  | woven {loud quiet : List Instruction} (maxStack : UInt16) (substituted : Nat) :
    same loud quiet → SameOutcome same (.ok { stream := loud, maxStack, substituted })
      (.ok { stream := quiet, maxStack, substituted })

variable {weaver : Weaver} {method : MethodContext} {events before stream : List Instruction}
  {event : Instruction} {loud quiet : List Instruction} {i : Nat}

/-! ## Muted streams -/

theorem Muted.append {others loud' quiet' : List Instruction}
    (h : weaver.Muted method events loud quiet) (h' : weaver.Muted method others loud' quiet') :
    weaver.Muted method (events ++ others) (loud ++ loud') (quiet ++ quiet') := by
  induction h with
  | nil => exact h'
  | keep hkept _ ih => exact .keep hkept ih
  | replace template hchosen _ ih => exact .replace template hchosen ih

theorem not_pushedAt_nil : ¬ weaver.PushedAt method [] i := by
  rintro ⟨front, event, back, hsplit, -⟩
  simp at hsplit

theorem pushedAt_cons_iff : weaver.PushedAt method (event :: stream) i ↔
    i = 0 ∧ (weaver.chosen? method event).isSome = true ∨
      ∃ j, weaver.PushedAt method stream j ∧
        i = j + 1 + if (weaver.chosen? method event).isSome then 1 else 0 := by
  constructor
  · rintro ⟨front, other, back, hsplit, hchosen, rfl⟩
    rcases List.cons_eq_append_iff.1 hsplit with ⟨rfl, hhead⟩ | ⟨front, rfl, rfl⟩
    · cases hhead
      exact .inl ⟨rfl, hchosen⟩
    · refine .inr ⟨_, ⟨front, other, back, rfl, hchosen, rfl⟩, ?_⟩
      simp only [List.length_cons, List.countP_cons]
      omega
  · rintro (⟨rfl, hchosen⟩ | ⟨j, ⟨front, other, back, rfl, hchosen, rfl⟩, rfl⟩)
    · exact ⟨[], event, stream, rfl, hchosen, rfl⟩
    · refine ⟨event :: front, other, back, rfl, hchosen, ?_⟩
      simp only [List.length_cons, List.countP_cons]
      omega

theorem pushedAt_cons_of_kept (h : weaver.chosen? method event = none) :
    weaver.PushedAt method (event :: stream) (i + 1) ↔ weaver.PushedAt method stream i := by
  simp [pushedAt_cons_iff, h]

theorem pushedAt_cons_of_replaced {candidate : Candidate}
    (h : weaver.chosen? method event = some candidate) :
    weaver.PushedAt method (event :: stream) (i + 2) ↔ weaver.PushedAt method stream i := by
  simp [pushedAt_cons_iff, h]

theorem Muted.sameButPushed (h : weaver.Muted method events loud quiet) :
    weaver.SameButPushed method events loud quiet := by
  induction h with
  | nil => exact ⟨rfl, fun hpushed => (not_pushedAt_nil hpushed).elim, fun _ => rfl⟩
  | keep hkept _ ih =>
      refine ⟨congrArg (· + 1) ih.length, fun {i} hpushed => ?_, fun {i} hfree => ?_⟩
      · cases i with
        | zero => simp [pushedAt_cons_iff, hkept] at hpushed
        | succ i => exact ih.pushed ((pushedAt_cons_of_kept hkept).1 hpushed)
      · cases i with
        | zero => rfl
        | succ i => exact ih.elsewhere (mt (pushedAt_cons_of_kept hkept).2 hfree)
  | replace template hchosen _ ih =>
      refine ⟨congrArg (· + 2) ih.length, fun {i} hpushed => ?_, fun {i} hfree => ?_⟩
      · match i with
        | 0 => exact ⟨template, rfl, rfl⟩
        | 1 => simp [pushedAt_cons_iff, hchosen] at hpushed
        | i + 2 => exact ih.pushed ((pushedAt_cons_of_replaced hchosen).1 hpushed)
      · match i with
        | 0 => exact (hfree (pushedAt_cons_iff.2 (.inl ⟨rfl, by rw [hchosen]; rfl⟩))).elim
        | 1 => rfl
        | i + 2 => exact ih.elsewhere (mt (pushedAt_cons_of_replaced hchosen).2 hfree)

/-! ## Steps -/

/-- Two walks stand behind the same events, and only the first one has registered anything. -/
structure InStep (weaver : Weaver) (method : MethodContext) (before : List Instruction)
    (loud quiet : WeavingState) : Prop where
  line : loud.position.line = quiet.position.line
  stream : weaver.Muted method before loud.stream.reverse quiet.stream.reverse
  substituted : loud.substituted = quiet.substituted
  silent : quiet.identifiers = []
  events : quiet.events.Sublist loud.events

namespace InStep

variable {loud quiet : WeavingState}

theorem tell (h : weaver.InStep method before loud quiet) (events : List Event) :
    weaver.InStep method before (loud.tell events) (quiet.tell events) :=
  ⟨h.line, h.stream, h.substituted, h.silent, h.events.append_left events.reverse⟩

theorem keep (h : weaver.InStep method before loud quiet)
    (hkept : weaver.chosen? method event = none) :
    weaver.InStep method (before ++ [event]) (loud.keep event) (quiet.keep event) := by
  refine ⟨h.line, ?_, h.substituted, h.silent, h.events⟩
  dsimp only [WeavingState.keep]
  rw [List.reverse_cons, List.reverse_cons]
  exact h.stream.append (.keep hkept .nil)

theorem atLine (h : weaver.InStep method before loud quiet) (line : Nat) :
    weaver.InStep method before { loud with position := loud.position.atLine line }
      { quiet with position := quiet.position.atLine line } :=
  ⟨rfl, h.stream, h.substituted, h.silent, h.events⟩

theorem substitute (h : weaver.InStep method before loud quiet) {call : Call}
    {candidate : Candidate} (hchosen : weaver.chosen? method (.invoke call) = some candidate) :
    weaver.InStep method (before ++ [.invoke call])
      (loud.substitute (weaver.registering true).settings method call candidate)
      (quiet.substitute (weaver.registering false).settings method call candidate) := by
  refine ⟨h.line, ?_, congrArg (· + 1) h.substituted, h.silent, ?_⟩
  · have hpiece := Muted.replace (Objective.template method.className loud.position.line
      loud.position.index) hchosen .nil
    simpa [WeavingState.substitute, WeavingState.pushCorrelation, registering, WeavingState.keep,
      SourcePosition.claim] using h.stream.append hpiece
  · simp only [WeavingState.substitute, WeavingState.pushCorrelation, registering,
      WeavingState.keep, SourcePosition.claim, if_true, h.line]
    exact (h.events.cons _).cons_cons _

/-- Both walks refuse an event for the same reason, or both go past it. -/
theorem visit (h : weaver.InStep method before loud quiet) (event : Instruction) :
    (∃ next muted fault,
      (weaver.registering true).visit method loud event = (next, some fault) ∧
      (weaver.registering false).visit method quiet event = (muted, some fault) ∧
      weaver.InStep method before next muted) ∨
    ∃ next muted,
      (weaver.registering true).visit method loud event = (next, none) ∧
      (weaver.registering false).visit method quiet event = (muted, none) ∧
      weaver.InStep method (before ++ [event]) next muted := by
  have hselect (register : Bool) (call : Call) :
      (weaver.registering register).select method call = weaver.select method call := rfl
  cases event with
  | line line start => exact .inr ⟨_, _, rfl, rfl, (h.atLine line.toNat).keep rfl⟩
  | invoke call =>
      have htold := h.tell (weaver.select method call).events
      simp only [Weaver.visit, hselect]
      cases houtcome : (weaver.select method call).outcome with
      | error fault => exact .inl ⟨_, _, fault, rfl, rfl, htold⟩
      | ok selected =>
          cases selected with
          | none => exact .inr ⟨_, _, rfl, rfl, htold.keep (by simp [chosen?, houtcome])⟩
          | some candidate =>
              exact .inr ⟨_, _, rfl, rfl, htold.substitute (by simp [chosen?, houtcome])⟩
  | _ => exact .inr ⟨_, _, rfl, rfl, h.keep rfl⟩

end InStep

/-! ## Runs -/

/-- How a walk that registers and one that does not come to an end. -/
structure EndsMuted (same : List Instruction → List Instruction → Prop) (loud quiet : Weaving) :
    Prop where
  outcome : SameOutcome same loud.outcome quiet.outcome
  silent : quiet.identifiers = []
  /-- All that is reported without registration is reported with it, in the same order. -/
  events : quiet.events.Sublist loud.events

theorem InStep.finish {loud quiet : WeavingState} {outcome muted : Except Fault WovenMethod}
    {same : List Instruction → List Instruction → Prop}
    (h : weaver.InStep method before loud quiet) (houtcome : SameOutcome same outcome muted) :
    EndsMuted same (loud.finish outcome) (quiet.finish muted) :=
  ⟨houtcome, congrArg List.reverse h.silent, h.events.reverse⟩

theorem InStep.weaveFrom {loud quiet : WeavingState} (h : weaver.InStep method before loud quiet)
    (rest : List Instruction) :
    EndsMuted (weaver.Muted method (before ++ rest))
      ((weaver.registering true).weaveFrom method loud rest)
      ((weaver.registering false).weaveFrom method quiet rest) := by
  induction rest generalizing before loud quiet with
  | nil =>
      rw [List.append_nil]
      refine h.finish ?_
      cases deepenStack method.maxStack with
      | error fault => exact .fault fault
      | ok maxStack =>
          rw [h.substituted]
          exact .woven maxStack quiet.substituted h.stream
  | cons event rest ih =>
      rw [weaveFrom_cons, weaveFrom_cons]
      rcases h.visit event with ⟨next, muted, fault, hloud, hquiet, hstep⟩ |
        ⟨next, muted, hloud, hquiet, hstep⟩
      · rw [hloud, hquiet]
        exact hstep.finish (.fault fault)
      · rw [hloud, hquiet, List.append_cons before event rest]
        exact ih hstep

theorem SameOutcome.mono {same other : List Instruction → List Instruction → Prop}
    {loud quiet : Except Fault WovenMethod} (h : SameOutcome same loud quiet)
    (himp : ∀ {loud quiet}, same loud quiet → other loud quiet) :
    SameOutcome other loud quiet := by
  cases h with
  | fault fault => exact .fault fault
  | woven maxStack substituted hsame => exact .woven maxStack substituted (himp hsame)

/-- What it does to the walk over a stream to switch registration off. -/
structure RunsMuted (weaver : Weaver) (method : MethodContext) (stream : List Instruction)
    (store : ObjectiveStore) : Prop where
  ends : EndsMuted (weaver.SameButPushed method stream)
    ((weaver.registering true).weaveInto method stream store).1
    ((weaver.registering false).weaveInto method stream store).1
  store : ((weaver.registering false).weaveInto method stream store).2 = store

/-- Without registration, every call gets the substitute that it gets with registration. -/
theorem weaveInto_runs_muted (weaver : Weaver) (method : MethodContext)
    (stream : List Instruction) (store : ObjectiveStore) :
    weaver.RunsMuted method stream store := by
  have hstart : weaver.InStep method [] {} {} := ⟨rfl, .nil, rfl, rfl, .refl []⟩
  have hends := hstart.weaveFrom stream
  exact ⟨⟨hends.outcome.mono Muted.sameButPushed, hends.silent, hends.events⟩,
    congrArg store.registerAll hends.silent⟩

end Weaver

end CallProbe
