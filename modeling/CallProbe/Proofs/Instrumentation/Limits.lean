import CallProbe.Proofs.Instruction.Faults
import CallProbe.Proofs.Instrumentation.Simulation
import CallProbe.Proofs.MethodBody.Growth

/-!
# Methods that outgrow the class file

Once a stream is woven, all that encoding, moving and storing ask for is settled: labels
are marked once, every offset of the body has one, and starts keep their order. What is
left are the limits of the class file itself.
-/

namespace CallProbe

open Outcome MethodBody Instruction

namespace Weaver

variable {weaver : Weaver} {context : MethodContext} {pool left : Pool} {body : MethodBody}
  {entries : List (Nat × Instruction)} {woven : WovenMethod} {encoded : EncodedCode}

/-! ## Encoding a woven stream -/

theorem marked_pieceAfter (before : List Instruction) (event : Instruction) :
    (weaver.pieceAfter context before event).filterMap marked? = [event].filterMap marked? := by
  rcases weaver.pieceAfter_cases before event with hpiece | ⟨call, candidate, rfl, hpiece⟩
  · rw [hpiece]
  · have hpush := (weaver.correlationAfter_plain context Pool.empty before).1
    rw [hpiece, List.filterMap_cons_none (marked?_eq_none hpush)]
    rfl

/-- Weaving neither adds nor removes a label. -/
theorem marked_eachAfter {before stream : List Instruction} :
    (eachAfter (weaver.pieceAfter context) before stream).filterMap marked? =
      stream.filterMap marked? := by
  induction stream generalizing before with
  | nil => rfl
  | cons event rest ih =>
      rw [eachAfter, List.filterMap_append, ih, marked_pieceAfter, ← List.filterMap_append,
        List.singleton_append]

theorem operandsFit_eachAfter {before : List Instruction}
    (h : Tiles pool body.code.length 0 entries body.code) :
    ∀ instruction ∈ eachAfter (weaver.pieceAfter context) before (body.events entries),
      instruction.OperandsFit := by
  refine forall_mem_eachAfter (forall_mem_events ?_ ?_) ?_ ?_
  · intro event hpseudo
    cases event with
    | label _ => trivial
    | line _ _ => trivial
    | _ => cases hpseudo
  · intro entry hentry
    exact (h.mem hentry).1.inRange.operandsFit
  · intro front
    unfold correlationAfter
    split <;> trivial
  · intro candidate hkind
    cases hkind

theorem encodeStream_woven_fails (htiles : Tiles pool body.code.length 0 entries body.code)
    (hbound : body.Bounded entries)
    (hwoven : (weaver.weave context (body.events entries)).outcome = .ok woven) :
    (encodeStream woven.stream).FailsBy Fault.Limit := by
  have hstream := (weave_ok hwoven).stream
  have hmarked : woven.stream.filterMap marked? = (body.events entries).filterMap marked? := by
    rw [hstream, marked_eachAfter]
  apply encodeStream_fails
  · rw [hmarked]
    exact nodup_marked_events htiles
  · intro instruction hinstruction target htarget
    obtain ⟨entry, hentry, hmention⟩ :=
      (weave_grows htiles.not_pseudo hwoven).targets_iff.1 ⟨instruction, hinstruction, htarget⟩
    rw [← mem_filterMap_marked?_iff, hmarked, mem_filterMap_marked?_iff]
    exact label_mem_events htiles.not_pseudo hbound
      (labels_contains_iff.2 (.inl ⟨entry, hentry, hmention⟩))
  · rw [hstream]
    exact operandsFit_eachAfter htiles

/-! ## Moving and storing what was encoded -/

theorem offsets_le_length (htiles : Tiles pool body.code.length 0 entries body.code)
    (hbound : body.Bounded entries) : ∀ offset ∈ body.offsets, offset ≤ body.code.length := by
  intro offset hoffset
  exact htiles.le_length (hbound.mem_starts (labels_contains_iff.2 (.inr hoffset)))

/-- In a layout of the woven stream, every offset of the body has its place. -/
theorem covers_offsets {placements : List Placement} {layout : Layout} {moves : List (Nat × Nat)}
    (htiles : Tiles pool body.code.length 0 entries body.code) (hbound : body.Bounded entries)
    (hsize : body.code.length ≤ maxCodeLength) (hlays : Layout.Lays {} pool placements layout left)
    (hspreads : Spreads (body.labels entries) body.linesByOffset body.code.length 0 entries
      placements moves layout.length) :
    ∀ offset ∈ body.offsets, Relocation.Covers (layout.labels[·]?) offset := by
  intro offset hoffset
  have hlabel : (body.labels entries).contains offset = true :=
    labels_contains_iff.2 (.inr hoffset)
  have hstart := hbound.mem_starts hlabel
  rw [← hspreads.map_fst] at hstart
  obtain ⟨move, hmove, rfl⟩ := List.mem_map.1 hstart
  refine ⟨Nat.le_trans (offsets_le_length htiles hbound _ hoffset) hsize, move.2,
    (hspreads.place_iff hlays).2 ⟨hlabel, hmove⟩, ?_⟩
  calc move.2 ≤ layout.length := (hspreads.bounds move hmove).2
    _ ≤ maxCodeLength := hlays.length_le (Nat.zero_le _)

/-- What was encoded is moved along, and stored unless an attribute outgrows its length. -/
theorem exists_moved {code : Bytes} (hbody : MethodBody.ofBytes pool code = .ok body)
    (htiles : Tiles pool body.code.length 0 entries body.code) (hbound : body.Bounded entries)
    (hwoven : (weaver.weave context (body.events entries)).outcome = .ok woven)
    (h : encodeStream woven.stream pool = (.ok encoded, left)) :
    ∃ moved, body.Moved (encoded.offsets[·]?) encoded.code moved ∧
      ∀ fault, { moved with maxStack := woven.maxStack }.encode = .error fault →
        fault = .malformed .nestedTooLarge ∧ maxContentLength < code.length := by
  obtain ⟨placements, layout, hmap, hlays, -, rfl⟩ := encodeStream_eq_ok_iff.1 h
  obtain ⟨moves, hspreads⟩ :=
    (weave_grows htiles.not_pseudo hwoven).spreads hmap hlays.consecutive
  have hsize : body.code.length ≤ maxCodeLength := (storable_of_ofBytes hbody).length_le
  obtain ⟨moved, hmoved⟩ :=
    (exists_moved_iff (placements.flatMap (Placement.bytes layout.labels))).2
      (covers_offsets htiles hbound hsize hlays hspreads)
  have hfits : (placements.flatMap (Placement.bytes layout.labels)).length ≤ maxCodeLength := by
    have hcode := hlays.consecutive.length_bytes layout.labels
    rw [Nat.zero_add] at hcode
    rw [hcode]
    exact hlays.length_le (Nat.zero_le _)
  have hordered : Relocation.Ordered (layout.labels[·]?) := by
    intro a b p q ha hb hlt
    have hmove := ((hspreads.place_iff hlays).1 ha).2
    have hmove' := ((hspreads.place_iff hlays).1 hb).2
    exact (hspreads.lt_iff htiles.starts_lt_length hmove hmove').1 hlt
  exact ⟨moved, hmoved, fun _ =>
    hmoved.encode_fails hbody hfits hordered (offsets_le_length htiles hbound)⟩

/-! ## The method -/

variable {method : MethodSource} {store : ObjectiveStore} {code : Bytes}
  {stream : List Instruction}

theorem encode_fails_at_limits (hbody : MethodBody.ofBytes pool code = .ok body)
    (hstream : body.stream pool = .ok stream)
    (hwoven : (weaver.weave context stream).outcome = .ok woven) :
    (∃ result, (method.encode { body, woven } pool).outcome = .ok result) ∨
      ∃ fault, (method.encode { body, woven } pool).outcome = .error fault ∧
        (fault.Limit ∨ fault = .malformed .nestedTooLarge ∧ maxContentLength < code.length) := by
  obtain ⟨entries, htiles, hbound, rfl⟩ := stream_eq_ok_iff.1 hstream
  rcases hencoded : encodeStream woven.stream pool with ⟨outcome, left⟩
  cases outcome with
  | error fault =>
      have hlimit := encodeStream_woven_fails htiles hbound hwoven _ _ _ hencoded
      refine .inr ⟨fault, ?_, .inl hlimit⟩
      unfold MethodSource.encode
      rw [hencoded]
  | ok encoded =>
      obtain ⟨moved, hmoved, hfails⟩ := exists_moved hbody htiles hbound hwoven hencoded
      have hrelocated := MethodBody.relocate_eq_ok_iff.2 hmoved
      unfold MethodSource.encode
      rw [hencoded]
      dsimp only
      cases hstored : { moved with maxStack := woven.maxStack }.encode with
      | ok stored =>
          exact .inl ⟨_, bind_eq_ok_iff.2 ⟨moved, hrelocated,
            bind_eq_ok_iff.2 ⟨stored, hstored, rfl⟩⟩⟩
      | error fault =>
          refine .inr ⟨fault, ?_, .inr (hfails fault hstored)⟩
          exact bind_eq_error_iff.2 (.inr ⟨moved, hrelocated,
            bind_eq_error_iff.2 (.inl hstored)⟩)

/-- A method that may have a body and whose body could be read and woven is instrumented, unless it
outgrows the class file: the pool is full, a new text or the new code array is too long, or a short
branch no longer reaches its target. Where the bytes of the body are more than an `attribute_length`
can tell, an attribute in the body may outgrow its own. -/
theorem instrument_fails_at_limits (hcode : method.code = some code)
    (haccess : method.access.isBodyless = false)
    (hbody : MethodBody.ofBytes pool code = .ok body) (hstream : body.stream pool = .ok stream)
    (hwoven : (weaver.weave (method.context body.maxStack) stream).outcome = .ok woven) :
    (∃ result, (weaver.instrument method pool store).outcome = .ok result) ∨
      ∃ fault, (weaver.instrument method pool store).outcome = .error fault ∧
        (fault.Limit ∨ fault = .malformed .nestedTooLarge ∧ maxContentLength < code.length) := by
  have hread : method.read pool = .ok (some (body, stream)) :=
    read_eq_ok_some_iff.2 ⟨code, hcode, haccess, hbody, hstream⟩
  have hprepared : (method.prepare weaver pool).outcome = .ok (some { body, woven }) :=
    prepare_of_weave hread hwoven
  unfold instrument
  simp only [hprepared, MethodSource.finish]
  by_cases hnone : woven.substituted = 0
  · rw [if_pos hnone]
    exact .inl ⟨_, rfl⟩
  · rw [if_neg hnone]
    exact encode_fails_at_limits hbody hstream hwoven

theorem equalsSource_within_limits :
    equalsSource.code = some [0, 4, 0, 2, 0, 0, 0, 6, 0x2A, 0x2B, 0xB6, 0, 6, 0xAC, 0, 0, 0, 0] ∧
      equalsSource.access.isBodyless = false ∧
      MethodBody.ofBytes poolOfEquals
        [0, 4, 0, 2, 0, 0, 0, 6, 0x2A, 0x2B, 0xB6, 0, 6, 0xAC, 0, 0, 0, 0] = .ok equalsBody ∧
      equalsBody.stream poolOfEquals = .ok equalsStream ∧
      (equalsWeaver.weave (equalsSource.context 4) equalsStream).outcome = .ok wovenEquals ∧
      0 < wovenEquals.substituted ∧
      ((∃ result, (equalsWeaver.instrument equalsSource poolOfEquals .empty).outcome = .ok result) ∨
        ∃ fault, (equalsWeaver.instrument equalsSource poolOfEquals .empty).outcome =
          .error fault ∧ (fault.Limit ∨ fault = .malformed .nestedTooLarge ∧
            maxContentLength < 18)) :=
  ⟨rfl, rfl, rfl, rfl, weave_equalsStream, Nat.one_pos,
    @instrument_fails_at_limits equalsWeaver poolOfEquals equalsBody wovenEquals equalsSource .empty
      _ equalsStream rfl rfl rfl rfl weave_equalsStream⟩

/-- The same method, but native. -/
def nativeSource : MethodSource :=
  { equalsSource with access := { bits := 0x0109 } }

/-- A native method is rejected for its body, even if that could be read and woven. -/
theorem nativeSource_outside_limits :
    poolOfEquals.Built ∧
      nativeSource.code = some [0, 4, 0, 2, 0, 0, 0, 6, 0x2A, 0x2B, 0xB6, 0, 6, 0xAC, 0, 0, 0, 0] ∧
      MethodBody.ofBytes poolOfEquals
        [0, 4, 0, 2, 0, 0, 0, 6, 0x2A, 0x2B, 0xB6, 0, 6, 0xAC, 0, 0, 0, 0] = .ok equalsBody ∧
      equalsBody.stream poolOfEquals = .ok equalsStream ∧
      (equalsWeaver.weave (nativeSource.context 4) equalsStream).outcome = .ok wovenEquals ∧
      0 < wovenEquals.substituted ∧
      (equalsWeaver.instrument nativeSource poolOfEquals .empty).outcome =
        .error (.malformed (.bodylessWithCode "p/Loop.run()V")) ∧
      ¬((∃ result, (equalsWeaver.instrument nativeSource poolOfEquals .empty).outcome =
          .ok result) ∨
        ∃ fault, (equalsWeaver.instrument nativeSource poolOfEquals .empty).outcome =
          .error fault ∧ fault.Limit) := by
  have hrejected : (equalsWeaver.instrument nativeSource poolOfEquals .empty).outcome =
      .error (.malformed (.bodylessWithCode "p/Loop.run()V")) := rfl
  refine ⟨poolOfEquals_built, rfl, rfl, rfl, weave_equalsStream, Nat.one_pos, hrejected, ?_⟩
  rw [hrejected]
  intro h
  rcases h with ⟨result, hok⟩ | ⟨fault, hfault, hlimit⟩
  · cases hok
  · cases hfault
    cases hlimit

end Weaver

end CallProbe
