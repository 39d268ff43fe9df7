import CallProbe.Proofs.Instrumentation.Simulation
import CallProbe.Proofs.MethodBody.Ranges

/-!
# Ranges of an instrumented method

Handlers, local variables and frames of an instrumented method are about the same instructions as
before. A call that was replaced counts as the push and the call that stand in its place: both are
inside a range exactly if the call was, and what led to the call leads to the push.
-/

namespace CallProbe

open Outcome MethodBody Pool

variable {weaver : Weaver} {method : MethodSource} {context : MethodContext} {pool left : Pool}
  {store : ObjectiveStore} {result : InstrumentedMethod}

/-- The counterpart is what weaving makes of its instruction: the same instruction, or what is
pushed for a replaced call with the call of the substitute behind it. -/
def Counterpart.WovenBy (weaver : Weaver) (context : MethodContext) (pool : Pool)
    (place : Label → Option Nat) (counterpart : Counterpart) : Prop :=
  match weaver.chosen? context counterpart.instruction with
  | none => counterpart.instruction.ReadsAs pool place counterpart.read ∧ counterpart.others = []
  | some candidate =>
    (∃ before, (weaver.correlationAfter context before).ReadsAs pool place counterpart.read) ∧
      ∃ behind call, counterpart.others = [(behind, call)] ∧
        (Instruction.invoke candidate.call).ReadsAs pool place call

namespace Weaver

theorem wovenBy_of_piece {labels : Std.TreeMap Nat Nat} {growth : Growth}
    {before : List Instruction}
    (hpiece : growth.placements.map (·.instruction) =
      weaver.pieceAfter context before growth.entry.2)
    (hreads : ∀ placement ∈ growth.placements,
      placement.instruction.ReadsAs pool (labels[·]?) (placement.resolved labels)) :
    (growth.counterpart labels).WovenBy weaver context pool (labels[·]?) := by
  unfold Counterpart.WovenBy Growth.counterpart
  unfold pieceAfter at hpiece
  rw [Growth.placements, List.map_cons] at hpiece
  obtain ⟨hfirst, hothers⟩ := List.forall_mem_cons.1 hreads
  dsimp only
  cases hchosen : weaver.chosen? context growth.entry.2 with
  | none =>
      rw [hchosen] at hpiece
      obtain ⟨hsame, hnone⟩ := List.cons.inj hpiece
      rw [hsame] at hfirst
      exact ⟨hfirst, by rw [List.map_eq_nil_iff.1 hnone, List.map_nil]⟩
  | some candidate =>
      rw [hchosen] at hpiece
      obtain ⟨hpush, hbehind⟩ := List.cons.inj hpiece
      obtain ⟨call, hcalls, hcall⟩ := List.map_eq_singleton_iff.1 hbehind
      rw [hpush] at hfirst
      rw [hcalls] at hothers ⊢
      have hsubstitute := hothers call (List.mem_singleton_self call)
      rw [hcall] at hsubstitute
      exact ⟨⟨before, hfirst⟩, _, _, rfl, hsubstitute⟩

/-- The layout of the woven stream, growth by growth. -/
theorem Stages.growths (stages : weaver.Stages method pool left result) :
    ∃ growths placements layout moves,
      Relaid pool left stages.body stages.moved (growths.map Growth.entry) placements layout moves ∧
      GrowsBy (stages.body.labels (growths.map Growth.entry)) stages.body.linesByOffset
        stages.body.code.length 0 placements growths layout.length ∧
      ∀ growth ∈ growths, ∃ before, growth.placements.map (·.instruction) =
        weaver.pieceAfter (method.context stages.body.maxStack) before growth.entry.2 := by
  obtain ⟨entries, placements, layout, moves, hrelaid, hmap, -⟩ := stages.relaid
  obtain ⟨entries', htiles, -, hstream⟩ := stream_eq_ok_iff.1 stages.stream_eq
  have hsame : entries' = entries := Except.ok.inj
    ((Instruction.readAll_eq_ok_iff.2 htiles).symm.trans
      (Instruction.readAll_eq_ok_iff.2 hrelaid.tiles))
  rw [(weave_ok stages.woven_eq).stream, hstream, hsame, events, eachAfter_events] at hmap
  obtain ⟨growths, hpieces, hgrows⟩ :=
    exists_growths (pieces_growsInto hrelaid.tiles.not_pseudo []) hmap hrelaid.lays.consecutive
  have hentries : growths.map Growth.entry = entries := by
    have hfirsts := congrArg (List.map (·.1)) hpieces
    rwa [map_pieces, List.map_map] at hfirsts
  subst hentries
  refine ⟨growths, placements, layout, moves, hrelaid, hgrows, ?_⟩
  intro growth hgrowth
  exact (mem_pieces (hpieces ▸ List.mem_map_of_mem hgrowth)).2

theorem instrument_of_none (hok : (weaver.instrument method pool store).outcome = .ok result)
    (hnone : result.substituted = 0) :
    result.code = method.code ∧ (weaver.instrument method pool store).pool = pool := by
  unfold instrument at hok ⊢
  dsimp only at hok ⊢
  cases hprepared : (method.prepare weaver pool).outcome with
  | error fault =>
      rw [hprepared] at hok
      cases hok
  | ok prepared =>
      rw [hprepared] at hok
      cases prepared with
      | none =>
          cases hok
          exact ⟨rfl, rfl⟩
      | some prepared =>
          by_cases hkept : prepared.woven.substituted = 0
          · simp only [MethodSource.finish, if_pos hkept] at hok ⊢
            cases hok
            exact ⟨rfl, rfl⟩
          · simp only [MethodSource.finish, if_neg hkept] at hok
            obtain ⟨_, _, _, -, -, -, -, hcount⟩ := encode_eq_ok hok
            exact absurd (hcount.symm.trans hnone) hkept

/-- A method that was instrumented either has kept its bytes, in the same pool, or everything in it
that refers to offsets has followed its instructions. -/
theorem instrument_ranges (hs : pool.Sound)
    (hok : (weaver.instrument method pool store).outcome = .ok result) :
    (result.substituted = 0 → result.code = method.code ∧
      (weaver.instrument method pool store).pool = pool) ∧
    (0 < result.substituted → ∃ code body stored moved counterparts, ∃ place : Label → Option Nat,
      method.code = some code ∧ MethodBody.ofBytes pool code = .ok body ∧
      result.code = some stored ∧
      MethodBody.ofBytes (weaver.instrument method pool store).pool stored = .ok moved ∧
      Follows pool (weaver.instrument method pool store).pool body moved counterparts place ∧
      ∀ counterpart ∈ counterparts, counterpart.WovenBy weaver (method.context body.maxStack)
        (weaver.instrument method pool store).pool place) := by
  refine ⟨instrument_of_none hok, fun hreplaced => ?_⟩
  obtain ⟨stages⟩ := nonempty_stages hok hreplaced
  obtain ⟨growths, placements, layout, moves, hrelaid, hgrows, hwoven⟩ := stages.growths
  have hfollows := hrelaid.follows hgrows hs
  refine ⟨stages.code, stages.body, stages.stored, stages.output, _, _, stages.code_eq,
    stages.body_eq, stages.result_eq.1, stages.ofBytes_stored hs,
    ⟨hfollows.before, hfollows.after, hfollows.targets, hfollows.handlers, hfollows.ranges,
      hfollows.frames⟩, ?_⟩
  intro counterpart hcounterpart
  obtain ⟨growth, hgrowth, rfl⟩ := List.mem_map.1 hcounterpart
  obtain ⟨before, hpiece⟩ := hwoven growth hgrowth
  refine wovenBy_of_piece hpiece fun placement hplacement => hrelaid.readsAs_of_mem hs ?_
  have hmem : placement ∈ placements.filter (!·.instruction.isPseudo) :=
    hgrows.reals ▸ List.mem_flatMap_of_mem hgrowth hplacement
  exact List.mem_of_mem_filter hmem

/-! ## The comparison inside a handler -/

/-- The method that compares two strings, with a handler for its call. -/
def guardedSource : MethodSource :=
  { equalsSource with
    code := some [0, 4, 0, 2, 0, 0, 0, 6, 0x2A, 0x2B, 0xB6, 0, 6, 0xAC, 0, 1, 0, 2, 0, 5, 0, 5, 0,
      0, 0, 0] }

def guardedBody : MethodBody :=
  { equalsBody with handlers := [{ start := 2, stop := 5, target := 5, catchType := 0 }] }

def guardedStream : List Instruction :=
  [.simple 0x2A, .simple 0x2B, .label 2, .invoke (equalsCall (some 6)), .label 5, .simple 0xAC]

def wovenGuarded : WovenMethod where
  stream := [.simple 0x2A, .simple 0x2B, .label 2, .loadString templateText, substituteCall,
    .label 5, .simple 0xAC]
  maxStack := 5
  substituted := 1

def encodedGuarded : EncodedCode where
  code := [0x2A, 0x2B, 0x12, 8, 0xB8, 0, 13, 0xAC]
  offsets := ((∅ : Std.TreeMap Nat Nat).insert 2 2).insert 5 7

def storedGuarded : InstrumentedMethod :=
  { storedMethod with
    code := some [0, 5, 0, 2, 0, 0, 0, 8, 0x2A, 0x2B, 0x12, 8, 0xB8, 0, 13, 0xAC, 0, 1, 0, 2, 0, 7,
      0, 7, 0, 0, 0, 0] }

theorem weave_guardedStream :
    (equalsWeaver.weave loopMethod guardedStream).outcome = .ok wovenGuarded := by
  have htemplate : Objective.template "p/Loop" 0 0 = templateText := by cbv
  have htext : equalsCandidate.descriptor.text = substituteText := by cbv
  have hwoven : (equalsWeaver.weave loopMethod guardedStream).outcome = .ok
      { wovenGuarded with
        stream := [.simple 0x2A, .simple 0x2B, .label 2,
          .loadString (Objective.template "p/Loop" 0 0),
          .invoke (.new .static "probe/Substitutes" "equals" equalsCandidate.descriptor.text),
          .label 5, .simple 0xAC] } := by
    simp only [weave, weaveFrom, guardedStream, select_equalsCall]
    rfl
  rw [hwoven, htemplate, htext]
  rfl

theorem read_guardedSource :
    guardedSource.read poolOfEquals = .ok (some (guardedBody, guardedStream)) := by
  decide +kernel

theorem encodeStream_wovenGuarded :
    encodeStream wovenGuarded.stream poolOfEquals = (.ok encodedGuarded, poolOfSubstitute) := by
  have hlayout : Layout.ofStream wovenGuarded.stream poolOfEquals =
      (.ok { placed := [⟨.simple 0xAC, 7, 0⟩, ⟨.label 5, 7, 0⟩, ⟨substituteCall, 4, 13⟩,
               ⟨.loadString templateText, 2, 8⟩, ⟨.label 2, 2, 0⟩, ⟨.simple 0x2B, 1, 0⟩,
               ⟨.simple 0x2A, 0, 0⟩]
             labels := encodedGuarded.offsets, length := 8 }, poolOfSubstitute) :=
    Edit.bind_eq_ok_iff.2 ⟨_, _, rfl, Edit.bind_eq_ok_iff.2 ⟨_, _, rfl,
      Edit.bind_eq_ok_iff.2 ⟨_, _, rfl, Edit.bind_eq_ok_iff.2 ⟨_, _, place_template (by decide),
        Edit.bind_eq_ok_iff.2 ⟨_, _, place_substitute (by decide), rfl⟩⟩⟩⟩⟩
  exact Edit.bind_eq_ok_iff.2 ⟨_, _, hlayout, rfl⟩

theorem instrument_guardedSource (store : ObjectiveStore) :
    (equalsWeaver.instrument guardedSource poolOfEquals store).outcome = .ok storedGuarded := by
  have hencode : (guardedSource.encode ⟨guardedBody, wovenGuarded⟩ poolOfEquals).outcome =
      .ok storedGuarded := by
    simp only [MethodSource.encode, encodeStream_wovenGuarded]
    rfl
  exact instrument_of_encode read_guardedSource weave_guardedStream Nat.one_ne_zero hencode

theorem guardedSource_ranges :
    poolOfEquals.Sound ∧
      (equalsWeaver.instrument guardedSource poolOfEquals .empty).outcome = .ok storedGuarded ∧
      0 < storedGuarded.substituted ∧
      ∃ code body stored moved counterparts, ∃ place : Label → Option Nat,
        guardedSource.code = some code ∧ MethodBody.ofBytes poolOfEquals code = .ok body ∧
        storedGuarded.code = some stored ∧
        MethodBody.ofBytes (equalsWeaver.instrument guardedSource poolOfEquals .empty).pool stored =
          .ok moved ∧
        Follows poolOfEquals (equalsWeaver.instrument guardedSource poolOfEquals .empty).pool body
          moved counterparts place ∧
        ∀ counterpart ∈ counterparts, counterpart.WovenBy equalsWeaver
          (guardedSource.context body.maxStack)
          (equalsWeaver.instrument guardedSource poolOfEquals .empty).pool place := by
  have hs : poolOfEquals.Sound := poolOfEquals_built.sound
  have hok := instrument_guardedSource .empty
  exact ⟨hs, hok, Nat.one_pos, (instrument_ranges hs hok).2 Nat.one_pos⟩

end Weaver

end CallProbe
