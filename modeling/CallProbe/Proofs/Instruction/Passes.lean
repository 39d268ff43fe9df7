import CallProbe.Proofs.Instruction.ReadBack

/-!
# Layout and emission agree

Encoding goes over a stream twice. The first pass computes from a formula where every event will
stand; the second one writes bytes, and pads a switch by the length of what is written by then. The
second pass never looks at the sizes of the first one, but wherever it comes to an event, it has
written as many bytes as the first pass has counted.
-/

namespace CallProbe

open Pool Outcome

/-! ## Padding -/

/-- Writes zeros until the length is a multiple of four. -/
def padded (written : Array UInt8) : Array UInt8 :=
  if written.size % 4 = 0 then written else padded (written.push 0)
termination_by Cursor.padding 4 written.size
decreasing_by
  rw [Array.size_push]
  unfold Cursor.padding
  omega

theorem size_padded_mod (written : Array UInt8) : (padded written).size % 4 = 0 := by
  fun_induction padded written with
  | case1 written haligned => exact haligned
  | case2 written hopen ih => exact ih

/-- The zeros are as many as the formula says. -/
theorem toList_padded (written : Array UInt8) :
    (padded written).toList =
      written.toList ++ List.replicate (Cursor.padding 4 written.size) 0 := by
  fun_induction padded written with
  | case1 written haligned =>
      have hnone : Cursor.padding 4 written.size = 0 := by
        unfold Cursor.padding
        omega
      simp [hnone]
  | case2 written hopen ih =>
      have hone : Cursor.padding 4 written.size = Cursor.padding 4 (written.size + 1) + 1 := by
        unfold Cursor.padding
        omega
      rw [ih, Array.size_push, hone, List.replicate_succ, Array.toList_push, List.append_assoc]
      rfl

theorem toList_padded_push (written : Array UInt8) (opcode : UInt8) :
    (padded (written.push opcode)).toList =
      written.toList ++ opcode :: switchPadding written.size := by
  rw [toList_padded, Array.size_push, Array.toList_push, List.append_assoc]
  rfl

/-! ## Switches -/

namespace Instruction

/-- The opcode of a switch at `offset`, and the operands behind its padding. -/
def switchOperands? (offset : Nat) : Instruction → Option (UInt8 × Bytes)
  | tableSwitch default low high targets =>
    some (Opcode.tableSwitch, distance32 offset default ++ bytes32 low.toUInt32
      ++ bytes32 high.toUInt32 ++ targets.flatMap (distance32 offset))
  | lookupSwitch default pairs =>
    some (Opcode.lookupSwitch, distance32 offset default ++ bytes32 (UInt32.ofNat pairs.length)
      ++ pairs.flatMap fun pair => bytes32 pair.1.toUInt32 ++ distance32 offset pair.2)
  | _ => none

theorem zeroed_pattern_of_switch {instruction : Instruction} {offset : Nat} {opcode : UInt8}
    {operands : Bytes} (h : instruction.switchOperands? offset = some (opcode, operands)) :
    (instruction.pattern offset).zeroed = opcode :: switchPadding offset ++ operands := by
  cases instruction with
  | tableSwitch default low high targets =>
      cases h
      simp [pattern, switchPadding]
  | lookupSwitch default pairs =>
      cases h
      simp [pattern, switchPadding]
  | _ => cases h

end Instruction

/-! ## Events -/

variable {labels : Std.TreeMap Nat Nat}

/-- How emission goes over a placed event, from what is written before it to what is written behind
it. -/
structure Placement.Emits (labels : Std.TreeMap Nat Nat) (placement : Placement)
    (before after : Array UInt8) : Prop where
  emitted : placement.emit labels before = .ok after
  position : before.size = placement.position
  size : after.size =
    before.size + placement.instruction.size placement.position placement.index
  /-- The operands of a switch start at a multiple of four, behind nothing but the zeros that it
  takes to get there. -/
  aligned : ∀ {opcode operands},
    (placement.resolved labels).switchOperands? placement.position = some (opcode, operands) →
    (padded (before.push opcode)).size % 4 = 0 ∧ after = padded (before.push opcode) ++ operands

theorem Placement.exists_emits {placement : Placement} {before : Array UInt8}
    (hencodable : placement.Encodable labels) (hposition : before.size = placement.position) :
    ∃ after, placement.Emits labels before after ∧
      after.toList = before.toList ++ placement.bytes labels := by
  have hemit : placement.emit labels before = .ok (before ++ placement.bytes labels) :=
    (Placement.emit_eq_ok_iff hposition).2 ⟨hencodable, by simp⟩
  refine ⟨_, ⟨hemit, hposition, ?_, ?_⟩, by simp⟩
  · rw [← Array.length_toList, Array.toList_appendList, List.length_append, Array.length_toList,
      Placement.length_bytes]
    rfl
  · intro opcode operands hswitch
    refine ⟨size_padded_mod _, Array.toList_inj.1 ?_⟩
    rw [Array.toList_appendList, Array.toList_appendList, toList_padded_push, hposition,
      Placement.bytes, Instruction.zeroed_pattern_of_switch hswitch, List.append_assoc]

/-! ## Streams -/

/-- What the two passes over a stream have in common. -/
structure PassesAgree (stream : List Instruction) (pool left : Pool) (encoded : EncodedCode)
    (layout : Layout) : Prop where
  laidOut : Layout.ofStream stream pool = (.ok layout, left)
  emitted : layout.emit = .ok encoded.code
  length : encoded.code.length = layout.length
  offsets : encoded.offsets = layout.labels
  events : layout.placed.reverse.map Placement.instruction = stream
  /-- Up to any event, emission has written what layout has counted, and goes on to write the size
  of the event. -/
  each : ∀ {i placement}, layout.placed.reverse[i]? = some placement → ∃ before after,
    (layout.placed.reverse.take i).foldlM (Placement.emit layout.labels) #[] = .ok before ∧
      placement.Emits layout.labels before after ∧ after.toList <+: encoded.code

/-- The front of a run of placements is written up to where the next one stands. -/
theorem Layout.Consecutive.exists_emits {start stop i : Nat} {placements : List Placement}
    {placement : Placement} {written : Array UInt8} (h : Consecutive start placements stop)
    (hstart : written.size = start)
    (hencodable : ∀ placement ∈ placements, placement.Encodable labels)
    (hi : placements[i]? = some placement) :
    ∃ before after, (placements.take i).foldlM (Placement.emit labels) written = .ok before ∧
      placement.Emits labels before after ∧
      after.toList <+: written.toList ++ placements.flatMap (Placement.bytes labels) := by
  obtain ⟨hlt, rfl⟩ := List.getElem?_eq_some_iff.1 hi
  have hsplit : placements = placements.take i ++ placements[i] :: placements.drop (i + 1) := by
    rw [← List.drop_eq_getElem_cons hlt, List.take_append_drop]
  rw [hsplit] at h
  obtain ⟨middle, hfront, hback⟩ := consecutive_append_iff.1 h
  have hmiddle : middle = placements[i].position := by
    cases hback
    rfl
  -- What the front comes to is the bytes of its events, which are as many as their sizes.
  have hcount := hfront.length_bytes labels
  let before := written ++ (placements.take i).flatMap (Placement.bytes labels)
  have hbefore : before.size = placements[i].position := by
    rw [← Array.length_toList, Array.toList_appendList, List.length_append, Array.length_toList,
      hstart, hcount, hmiddle]
  obtain ⟨after, hemits, hafter⟩ :=
    Placement.exists_emits (hencodable _ (List.getElem_mem hlt)) hbefore
  have hfold : (placements.take i).foldlM (Placement.emit labels) written = .ok before :=
    (foldlM_emit_eq_ok_iff hfront hstart).2
      ⟨fun placement hmem => hencodable placement (List.mem_of_mem_take hmem), by simp [before]⟩
  have hwhole : placements.flatMap (Placement.bytes labels) =
      (placements.take i).flatMap (Placement.bytes labels) ++ (placements[i].bytes labels ++
        (placements.drop (i + 1)).flatMap (Placement.bytes labels)) := by
    conv_lhs => rw [hsplit]
    rw [List.flatMap_append, List.flatMap_cons]
  refine ⟨before, after, hfold, hemits, ?_⟩
  rw [hafter, hwhole, Array.toList_appendList, ← List.append_assoc, ← List.append_assoc]
  exact List.prefix_append _ _

/-- Where a stream can be encoded, what emission writes is where layout has placed it. -/
theorem encodeStream_passes_agree {stream : List Instruction} {pool left : Pool}
    {encoded : EncodedCode} (h : encodeStream stream pool = (.ok encoded, left)) :
    ∃ layout, PassesAgree stream pool left encoded layout := by
  obtain ⟨placements, layout, rfl, hlays, hencodable, rfl⟩ := encodeStream_eq_ok_iff.1 h
  have hplaced : layout.placed.reverse = placements := by simp [hlays.placed]
  have hconsecutive := hlays.consecutive
  have hempty : (#[] : Array UInt8).size = ({} : Layout).length := rfl
  refine ⟨layout, Layout.ofStream_eq_ok_iff.2 ⟨placements, rfl, hlays⟩, ?_, ?_, rfl, ?_, ?_⟩
  · unfold Layout.emit
    have hfold : placements.foldlM (Placement.emit layout.labels) #[] =
        .ok (placements.flatMap (Placement.bytes layout.labels)).toArray :=
      (Layout.foldlM_emit_eq_ok_iff hconsecutive hempty).2 ⟨hencodable, by simp⟩
    rw [hplaced, hfold]
    rfl
  · have hcount := hconsecutive.length_bytes layout.labels
    rwa [Nat.zero_add] at hcount
  · rw [hplaced]
  · intro i placement hi
    rw [hplaced] at hi ⊢
    obtain ⟨before, after, hfold, hemits, hprefix⟩ :=
      hconsecutive.exists_emits hempty hencodable hi
    exact ⟨before, after, hfold, hemits, by simpa using hprefix⟩

/-- A switch that is one byte from the front of its code, and three from its operands. -/
def switchLoop : List Instruction := [.label 4, .simple 0x00, .lookupSwitch 4 [(7, 4)]]

def encodedSwitch : EncodedCode where
  code := [0x00, 0xAB, 0, 0, 0xFF, 0xFF, 0xFF, 0xFF, 0, 0, 0, 1, 0, 0, 0, 7, 0xFF, 0xFF, 0xFF, 0xFF]
  offsets := (∅ : Std.TreeMap Nat Nat).insert 4 0

theorem switchLoop_passes_agree :
    encodeStream switchLoop Pool.new = (.ok encodedSwitch, Pool.new) ∧
      ∃ layout, PassesAgree switchLoop Pool.new Pool.new encodedSwitch layout := by
  have hencoded : encodeStream switchLoop Pool.new = (.ok encodedSwitch, Pool.new) := rfl
  exact ⟨hencoded, encodeStream_passes_agree hencoded⟩

end CallProbe
