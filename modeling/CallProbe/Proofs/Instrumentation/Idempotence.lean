import CallProbe.Proofs.CallSite.Selection
import CallProbe.Proofs.Instrumentation.Untouched

/-!
# Instrumenting twice

What comes out of a method has two kinds of calls. Those that were kept are decided as
they were before, and those that were put in go to classes whose calls nobody looks at.
So there is nothing left to replace.
-/

namespace CallProbe

namespace Weaver

variable {weaver : Weaver} {context : MethodContext} {method : MethodSource} {pool left : Pool}
  {store : ObjectiveStore} {result : InstrumentedMethod}

/-- The settings admit no class that a substitute is declared in. -/
def KeepsSubstitutes (weaver : Weaver) : Prop :=
  ∀ provider ∈ weaver.registry.providers, ∀ candidate ∈ provider.functions,
    weaver.settings.admits candidate.declaring = false

/-! ## Calls that are kept -/

/-- Where a call is found in the pool, and what stack and code its method has, makes no difference
to the decision. -/
theorem select_stored (method : MethodSource) (depth depth' : UInt16) (call : Call)
    (code : Option Bytes) (index : Option UInt16) :
    weaver.select ({ method with code }.context depth') { call with poolIndex := index } =
      weaver.select (method.context depth) call := rfl

theorem select_of_kept {call : Call} (hchosen : weaver.chosen? context (.invoke call) = none)
    (hpass : weaver.refusal? context (.invoke call) = none) :
    (weaver.select context call).outcome = .ok none := by
  cases hselect : (weaver.select context call).outcome with
  | error fault => simp [refusal?, hselect] at hpass
  | ok selected => simpa [chosen?, hselect] using hchosen

theorem select_substitute (hkeeps : weaver.KeepsSubstitutes) {event : Instruction}
    {candidate : Candidate} (hchosen : weaver.chosen? context event = some candidate) :
    (weaver.select context candidate.call).outcome = .ok none := by
  cases event with
  | invoke call =>
      obtain ⟨provider, hprovider, hfunction⟩ :=
        exists_provider_of_select (select_of_chosen hchosen)
      have hforeign := hkeeps provider hprovider candidate hfunction
      apply select_outcome_of_not_considers
      intro hconsiders
      have hadmits := Settings.admits_iff.2 hconsiders.admitted
      exact Bool.false_ne_true (hforeign.symm.trans hadmits)
  | _ => cases hchosen

/-- No call of a woven stream would be replaced. -/
theorem select_woven (hkeeps : weaver.KeepsSubstitutes) {stream : List Instruction}
    {woven : WovenMethod} (hok : (weaver.weave context stream).outcome = .ok woven) {call : Call}
    (hcall : .invoke call ∈ woven.stream) : (weaver.select context call).outcome = .ok none := by
  have hwove := weave_ok hok
  rw [hwove.stream] at hcall
  obtain ⟨front, event, hevent, hmem⟩ := mem_eachAfter hcall
  cases hchosen : weaver.chosen? context event with
  | none =>
      rw [pieceAfter_of_kept hchosen, List.mem_singleton] at hmem
      subst hmem
      exact select_of_kept hchosen (hwove.decided _ hevent)
  | some candidate =>
      rw [pieceAfter, hchosen] at hmem
      rcases List.mem_cons.1 hmem with hpush | hsubstitute
      · unfold correlationAfter at hpush
        split at hpush <;> cases hpush
      · cases List.mem_singleton.1 hsubstitute
        exact select_substitute hkeeps hchosen

/-! ## Calls that are read back -/

theorem invoke_of_readsAs {place : Label → Option Nat} {instruction : Instruction} {call : Call}
    (h : instruction.ReadsAs left place (.invoke call)) :
    ∃ (written : Call) (index : Option UInt16), instruction = .invoke written ∧
      call = { written with poolIndex := index } := by
  cases instruction with
  | invoke written =>
      obtain ⟨index, -, -, hread⟩ := h
      cases hread
      exact ⟨written, some index, rfl, rfl⟩
  | _ => simp [Instruction.ReadsAs] at h

/-- If no call that was written would be replaced, no call that is read back is. -/
theorem select_read (method : MethodSource) (depth depth' : UInt16) (code : Option Bytes)
    {place : Label → Option Nat} {written read : List Instruction}
    (hread : List.Forall₂ (Instruction.ReadsAs left place) written read)
    (hnone : ∀ call, .invoke call ∈ written →
      (weaver.select (method.context depth) call).outcome = .ok none) :
    ∀ call, .invoke call ∈ read →
      (weaver.select ({ method with code }.context depth') call).outcome = .ok none := by
  have hstep {instruction stored : Instruction} (h : instruction.ReadsAs left place stored)
      (hpass : ∀ call, instruction = .invoke call →
        (weaver.select (method.context depth) call).outcome = .ok none) :
      ∀ call, stored = .invoke call →
        (weaver.select ({ method with code }.context depth') call).outcome = .ok none := by
    rintro call rfl
    obtain ⟨original, index, rfl, rfl⟩ := invoke_of_readsAs h
    rw [select_stored method depth]
    exact hpass original rfl
  intro call hcall
  have hall := forall_mem_of_forall₂ hread hstep fun instruction hinstruction call heq =>
    hnone call (heq ▸ hinstruction)
  exact hall _ hcall call rfl

/-! ## The second run -/

/-- A method that was instrumented is left alone the second time, with the pool and the store that
the first time has left, provided that no substitute is itself looked at and the stack can get one
slot deeper again. -/
theorem instrument_idempotent (hbuilt : pool.Built) (hkeeps : weaver.KeepsSubstitutes)
    (hok : (weaver.instrument method pool store).outcome = .ok result)
    (hreplaced : 0 < result.substituted) :
    ∃ stored output, result.code = some stored ∧
      MethodBody.ofBytes (weaver.instrument method pool store).pool stored = .ok output ∧
      (output.maxStack.toNat < 65535 →
        let first := weaver.instrument method pool store
        let second := weaver.instrument { method with code := result.code } first.pool first.store
        second.outcome = .ok { name := method.name, descriptor := method.descriptor
                               code := result.code, substituted := 0 } ∧
          second.pool = first.pool ∧ second.store = first.store) := by
  obtain ⟨stages⟩ := nonempty_stages hok hreplaced
  have hbody := stages.ofBytes_stored hbuilt.sound
  obtain ⟨read, place, hstream, -, hread⟩ := stages.output_readsAs hbuilt.sound
  refine ⟨stages.stored, stages.output, stages.result_eq.1, hbody, fun hdepth => ?_⟩
  have hsource : ({ method with code := result.code } : MethodSource).read
      (weaver.instrument method pool store).pool = .ok (some (stages.output, read)) :=
    read_eq_ok_some_iff.2 ⟨stages.stored, stages.result_eq.1, stages.access_eq, hbody, hstream⟩
  have hnone := select_read method stages.body.maxStack stages.output.maxStack result.code hread
    fun call hcall => select_woven hkeeps stages.woven_eq hcall
  exact instrument_unchanged hsource hnone hdepth

theorem equalsWeaver_keepsSubstitutes : equalsWeaver.KeepsSubstitutes := by
  intro provider hprovider candidate hcandidate
  obtain rfl := List.mem_singleton.1 hprovider
  obtain rfl := List.mem_singleton.1 hcandidate
  simp [equalsWeaver, equalsCandidate, Settings.admits]

/-- The comparison is replaced once and for all. -/
theorem equalsSource_settles :
    poolOfEquals.Built ∧ equalsWeaver.KeepsSubstitutes ∧
      (equalsWeaver.instrument equalsSource poolOfEquals .empty).outcome = .ok storedMethod ∧
      0 < storedMethod.substituted ∧
      let first := equalsWeaver.instrument equalsSource poolOfEquals .empty
      let second := equalsWeaver.instrument { equalsSource with code := storedMethod.code }
        first.pool first.store
      second.outcome = .ok { storedMethod with substituted := 0 } ∧ second.pool = first.pool ∧
        second.store = first.store := by
  obtain ⟨stored, output, hcode, hbody, hsecond⟩ := instrument_idempotent poolOfEquals_built
    equalsWeaver_keepsSubstitutes (instrument_equalsSource .empty) Nat.one_pos
  cases hcode
  have hdepth : output.maxStack.toNat < 65535 := by
    cases hbody
    decide
  exact ⟨poolOfEquals_built, equalsWeaver_keepsSubstitutes, instrument_equalsSource .empty,
    Nat.one_pos, hsecond hdepth⟩

end Weaver

end CallProbe
