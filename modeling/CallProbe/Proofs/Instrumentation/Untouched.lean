import CallProbe.Proofs.CallSite.Folding
import CallProbe.Proofs.Instrumentation.Simulation

/-!
# Methods without a replaced call

Such a method is walked over like any other before it is given back, and at its end the
walk asks for one more stack slot. This is the only way the method can still fail.
-/

namespace CallProbe

open Outcome

namespace Weaver

variable {weaver : Weaver} {method : MethodSource} {context : MethodContext} {pool : Pool}
  {store : ObjectiveStore} {code : Bytes} {body : MethodBody} {stream : List Instruction}

/-! ## The walk -/

theorem chosen?_eq_none
    (hnone : ∀ call, .invoke call ∈ stream → (weaver.select context call).outcome = .ok none)
    {event : Instruction} (hevent : event ∈ stream) : weaver.chosen? context event = none := by
  cases event with
  | invoke call => simp [chosen?, hnone call hevent]
  | _ => rfl

theorem refusal?_eq_none
    (hnone : ∀ call, .invoke call ∈ stream → (weaver.select context call).outcome = .ok none) :
    ∀ event ∈ stream, weaver.refusal? context event = none :=
  refusal?_eq_none_iff.2 fun call hcall => ⟨none, hnone call hcall⟩

/-- A walk that replaces nothing names nothing. -/
theorem weave_identifiers_of_none
    (hnone : ∀ call, .invoke call ∈ stream → (weaver.select context call).outcome = .ok none) :
    (weaver.weave context stream).identifiers = [] := by
  have hwalked : weaver.Walked context [] {} stream _ := weave_walked stream
  rw [hwalked.identifiers]
  refine List.eq_nil_iff_forall_not_mem.2 fun id hid => ?_
  obtain ⟨front, event, hevent, hmem⟩ := mem_eachAfter hid
  have hkept := chosen?_eq_none hnone ((List.takeWhile_sublist _).subset hevent)
  rw [identifiersAfter, hkept] at hmem
  cases hmem

theorem weave_substituted_of_none {woven : WovenMethod}
    (hnone : ∀ call, .invoke call ∈ stream → (weaver.select context call).outcome = .ok none)
    (hok : (weaver.weave context stream).outcome = .ok woven) : woven.substituted = 0 := by
  rw [(weave_ok hok).substituted, List.countP_eq_zero]
  intro event hevent
  simp [chosen?_eq_none hnone hevent]

/-! ## The method -/

/-- Where the stack has a slot to spare, such a method comes out as it went in. -/
theorem instrument_unchanged (hread : method.read pool = .ok (some (body, stream)))
    (hnone : ∀ call, .invoke call ∈ stream →
      (weaver.select (method.context body.maxStack) call).outcome = .ok none)
    (hdepth : body.maxStack.toNat < 65535) :
    (weaver.instrument method pool store).outcome = .ok method.unchanged ∧
      (weaver.instrument method pool store).pool = pool ∧
      (weaver.instrument method pool store).store = store := by
  obtain ⟨woven, hwoven⟩ : ∃ woven,
      (weaver.weave (method.context body.maxStack) stream).outcome = .ok woven :=
    weave_succeeds (refusal?_eq_none hnone) hdepth
  have hfinish : method.finish (some { body, woven }) pool =
      { outcome := .ok method.unchanged, pool } :=
    if_pos (weave_substituted_of_none hnone hwoven)
  have hfinished : (method.finish (some { body, woven }) pool).outcome = .ok method.unchanged := by
    rw [hfinish]
  obtain ⟨houtcome, hpool, hstore⟩ :=
    instrument_of_finish store (prepare_of_weave hread hwoven) hfinished
  have hids : (method.prepare weaver pool).identifiers = [] := by
    unfold MethodSource.prepare
    rw [hread]
    exact weave_identifiers_of_none hnone
  rw [houtcome, hpool, hstore, hfinish, hids]
  exact ⟨rfl, rfl, rfl⟩

/-- A method of which no call is replaced keeps its bytes and leaves pool and store alone, unless
its stack is as deep as a stack can be: then it fails, although it would not get any deeper. -/
theorem instrument_untouched (hcode : method.code = some code)
    (haccess : method.access.isBodyless = false) (hbody : MethodBody.ofBytes pool code = .ok body)
    (hstream : body.stream pool = .ok stream)
    (hnone : ∀ call, .invoke call ∈ stream →
      (weaver.select (method.context body.maxStack) call).outcome = .ok none) :
    (weaver.instrument method pool store).outcome =
        (if body.maxStack.toNat < 65535 then
          .ok { name := method.name, descriptor := method.descriptor, code := some code
                substituted := 0 }
        else .error (.stackOverflow body.maxStack)) ∧
      (weaver.instrument method pool store).pool = pool ∧
      (weaver.instrument method pool store).store = store := by
  have hread : method.read pool = .ok (some (body, stream)) :=
    read_eq_ok_some_iff.2 ⟨code, hcode, haccess, hbody, hstream⟩
  have hunchanged : method.unchanged =
      { name := method.name, descriptor := method.descriptor, code := some code
        substituted := 0 } := by
    rw [MethodSource.unchanged, hcode]
  by_cases hdepth : body.maxStack.toNat < 65535
  · rw [if_pos hdepth, ← hunchanged]
    exact instrument_unchanged hread hnone hdepth
  · have hfull : (method.context body.maxStack).maxStack.toNat = 65535 := by
      have hlt : body.maxStack.toNat < 65536 := body.maxStack.toNat_lt
      show body.maxStack.toNat = 65535
      omega
    unfold instrument MethodSource.prepare
    simp only [hread, weave_outcome_of_full (refusal?_eq_none hnone) hfull, if_neg hdepth,
      weave_identifiers_of_none hnone]
    exact ⟨rfl, rfl, rfl⟩

/-- The comparison as a class initialiser, which keeps its calls. -/
def initializerSource : MethodSource := { equalsSource with name := "<clinit>" }

theorem initializerSource_untouched :
    initializerSource.code = equalsSource.code ∧
      MethodBody.ofBytes poolOfEquals [0, 4, 0, 2, 0, 0, 0, 6, 0x2A, 0x2B, 0xB6, 0, 6, 0xAC, 0, 0,
        0, 0] = .ok equalsBody ∧
      equalsBody.stream poolOfEquals = .ok equalsStream ∧
      (∀ call, .invoke call ∈ equalsStream →
        (equalsWeaver.select (initializerSource.context 4) call).outcome = .ok none) ∧
      (equalsWeaver.instrument initializerSource poolOfEquals .empty).outcome =
        .ok { name := "<clinit>", descriptor := "()V", code := equalsSource.code
              substituted := 0 } ∧
      (equalsWeaver.instrument initializerSource poolOfEquals .empty).pool = poolOfEquals ∧
      (equalsWeaver.instrument initializerSource poolOfEquals .empty).store = .empty := by
  have hnone : ∀ call, .invoke call ∈ equalsStream →
      (equalsWeaver.select (initializerSource.context 4) call).outcome = .ok none := by
    intro call _
    rfl
  obtain ⟨houtcome, hpool, hstore⟩ := @instrument_untouched equalsWeaver initializerSource
    poolOfEquals .empty _ equalsBody equalsStream rfl rfl rfl rfl hnone
  exact ⟨rfl, rfl, rfl, hnone, houtcome, hpool, hstore⟩

/-- A method that returns at once and claims the deepest stack there is. -/
def deepSource : MethodSource where
  className := "p/Plain"
  name := "run"
  descriptor := "()V"
  access := { bits := 1 }
  code := some [0xFF, 0xFF, 0, 1, 0, 0, 0, 1, 0xB1, 0, 0, 0, 0]

/-- It has no call at all, and fails. -/
theorem deepSource_overflows : ∃ code body stream,
    deepSource.code = some code ∧ deepSource.access.isBodyless = false ∧
      MethodBody.ofBytes Pool.new code = .ok body ∧ body.stream Pool.new = .ok stream ∧
      (∀ call, .invoke call ∈ stream →
        (equalsWeaver.select (deepSource.context body.maxStack) call).outcome = .ok none) ∧
      (equalsWeaver.instrument deepSource Pool.new .empty).outcome =
        .error (.stackOverflow 65535) := by
  refine ⟨_, _, [.simple 0xB1], rfl, rfl, rfl, rfl, ?_, rfl⟩
  intro call hcall
  simp at hcall

end Weaver

end CallProbe
