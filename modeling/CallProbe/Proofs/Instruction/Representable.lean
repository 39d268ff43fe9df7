import CallProbe.Proofs.Instruction.Faults
import Mathlib.Algebra.GroupWithZero.Nat

/-!
# Which streams can be encoded

Positions depend on the pool and on what stands in front of an event, never on labels. So the
events of a stream can be placed before it is asked whether they fit: `Representable` is what
the placed events have to satisfy, and encoding succeeds exactly then. Where it stops at a
branch that is too long, `BreaksAt` says which branch that is.
-/

namespace CallProbe

open Pool Outcome

/-! ## What has to fit -/

/-- Every label is marked at most once, and the code array is not too long. -/
structure LaidOut (placements : List Placement) : Prop where
  once : (placements.filterMap (·.instruction.marked?)).Nodup
  length : (placements.map Placement.size).sum ≤ maxCodeLength

/-- What it takes to write one of the placed events. -/
structure Placement.Writable (placements : List Placement) (placement : Placement) : Prop where
  marked : ∀ target ∈ placement.instruction.targets,
    ∃ mark ∈ placements, mark.instruction = .label target
  reaches : ∀ {opcode target}, placement.instruction = .jump opcode target →
    Opcode.isWideBranch opcode = false → ∀ mark ∈ placements, mark.instruction = .label target →
    ReachesShort placement.position mark.position
  byteValue : ∀ {value}, placement.instruction = .push Opcode.bipush value →
    -128 ≤ value.toInt ∧ value.toInt ≤ 127
  byteSlot : ∀ {opcode index}, placement.instruction = .slot opcode index false →
    index.toNat ≤ 255
  byteIncrement : ∀ {index delta}, placement.instruction = .increment index delta false →
    index.toNat ≤ 255 ∧ -128 ≤ delta.toInt ∧ delta.toInt ≤ 127
  byteConstant : ∀ {index}, placement.instruction = .constant Opcode.ldc index →
    index.toNat ≤ 255
  arguments : ∀ {call}, placement.instruction = .invoke call → call.kind = .interface →
    ∃ descriptor, MethodDescriptor.parse call.descriptor = .ok descriptor ∧
      descriptor.argumentSlots ≤ 254

/-- The placed events have a code array. -/
structure Representable (placements : List Placement) : Prop extends LaidOut placements where
  writable : ∀ placement ∈ placements, placement.Writable placements

/-- The first event that cannot be written is a short branch at `source`, whose label is marked at
`target`, too far away. -/
structure BreaksAt (placements : List Placement) (source target : Nat) : Prop where
  laidOut : LaidOut placements
  first : ∃ front placement back opcode label, placements = front ++ placement :: back ∧
    (∀ earlier ∈ front, earlier.Writable placements) ∧
    placement.instruction = .jump opcode label ∧ Opcode.isWideBranch opcode = false ∧
    placement.position = source ∧
    (∃ mark ∈ placements, mark.instruction = .label label ∧ mark.position = target) ∧
    ¬ ReachesShort source target

namespace Layout

variable {pool left after : Pool} {layout result : Layout} {stream : List Instruction}
  {indices : List UInt16} {placements : List Placement} {start stop : Nat}

/-! ## Placing without a limit -/

/-- The events of a stream one behind the other, each with the pool index of its operand. -/
def placedFrom : Nat → List Instruction → List UInt16 → List Placement
  | position, instruction :: stream, index :: indices =>
    { instruction, position, index } ::
      placedFrom (position + instruction.size position index) stream indices
  | _, _, _ => []

theorem consecutive_placedFrom (start : Nat) (stream : List Instruction)
    (indices : List UInt16) :
    ∃ stop, Consecutive start (placedFrom start stream indices) stop := by
  induction stream generalizing start indices with
  | nil => exact ⟨start, .nil⟩
  | cons instruction stream ih =>
      cases indices with
      | nil => exact ⟨start, .nil⟩
      | cons index indices =>
          obtain ⟨stop, htail⟩ := ih (start + instruction.size start index) indices
          exact ⟨stop, @Consecutive.cons stop ⟨instruction, start, index⟩ _ htail⟩

theorem Consecutive.eq_placedFrom (h : Consecutive start placements stop) :
    placements = placedFrom start (placements.map Placement.instruction)
      (placements.map Placement.index) := by
  induction h with
  | nil => rfl
  | @cons stop placement rest tail ih => exact congrArg (placement :: ·) ih

theorem Consecutive.stop_eq (h : Consecutive start placements stop) :
    stop = start + (placements.map Placement.size).sum := by
  induction h with
  | nil => simp
  | cons tail ih =>
      rw [ih, List.map_cons, List.sum_cons]
      omega

/-- Placing loses no event whose operand has an index. -/
theorem map_placedFrom (hlower : stream.mapM Instruction.lower pool = (.ok indices, left))
    (start : Nat) : (placedFrom start stream indices).map Placement.instruction = stream ∧
      (placedFrom start stream indices).map Placement.index = indices := by
  induction stream generalizing pool indices start with
  | nil =>
      obtain ⟨rfl, -⟩ := Edit.pure_eq_ok_iff.1 hlower
      exact ⟨rfl, rfl⟩
  | cons instruction stream ih =>
      obtain ⟨index, rest, middle, -, hrest, rfl⟩ := mapM_lower_cons.1 hlower
      obtain ⟨hinstructions, hindices⟩ := ih hrest (start + instruction.size start index)
      simp [placedFrom, hinstructions, hindices]

/-- The placements of a run are settled by the pool it starts with. -/
theorem Lays.eq_placedFrom (h : Lays layout pool placements result after)
    (hstream : placements.map Placement.instruction = stream)
    (hlower : stream.mapM Instruction.lower pool = (.ok indices, left)) :
    placements = placedFrom layout.length stream indices := by
  have hlowered := h.lowered
  rw [hstream, hlower, Prod.mk.injEq, Except.ok.injEq] at hlowered
  have hplaced := h.consecutive.eq_placedFrom
  rwa [hstream, ← hlowered.1] at hplaced

/-! ## Labels -/

/-- A run marks no label twice, and none that was known before. -/
theorem Lays.marks (h : Lays layout pool placements result left) :
    (placements.filterMap (·.instruction.marked?)).Nodup ∧
      ∀ label ∈ placements.filterMap (·.instruction.marked?),
        layout.labels.contains label = false := by
  induction h with
  | nil => simp
  | @cons layout _ _ _ _ placement rest admits _ _ ih =>
      obtain ⟨hnodup, hfresh⟩ := ih
      -- A label that is new behind the first event is not marked by it, and was new before.
      have hold : ∀ label ∈ rest.filterMap (·.instruction.marked?),
          placement.instruction.marked? ≠ some label ∧ layout.labels.contains label = false := by
        intro label hlabel
        have hnew := hfresh label hlabel
        rw [Bool.eq_false_iff, ne_eq, contains_add_iff, not_or] at hnew
        exact ⟨hnew.1, Bool.eq_false_iff.2 hnew.2⟩
      cases hmarked : placement.instruction.marked? with
      | none =>
          simp only [List.filterMap_cons, hmarked]
          exact ⟨hnodup, fun label hlabel => (hold label hlabel).2⟩
      | some first =>
          simp only [List.filterMap_cons, hmarked]
          refine ⟨List.nodup_cons.2 ⟨fun hfirst => (hold first hfirst).1 hmarked, hnodup⟩, ?_⟩
          refine List.forall_mem_cons.2 ⟨?_, fun label hlabel => (hold label hlabel).2⟩
          exact admits.fresh first (Instruction.marked?_eq_some_iff.1 hmarked)

theorem Lays.exists_mark (h : Lays {} pool placements layout left) {label : Label}
    (hlabel : layout.labels.contains label = true) :
    ∃ mark ∈ placements, mark.instruction = .label label ∧
      mark.position = newPlace layout.labels label := by
  rcases h.labels_getElem?_iff.1 (place_eq_some_iff.2 ⟨hlabel, rfl⟩) with hold | hmark
  · simp at hold
  · exact hmark

theorem Lays.contains_iff_marked (h : Lays {} pool placements layout left) {label : Label} :
    layout.labels.contains label = true ↔
      ∃ mark ∈ placements, mark.instruction = .label label := by
  constructor
  · intro hlabel
    obtain ⟨mark, hmark, hmarks, -⟩ := h.exists_mark hlabel
    exact ⟨mark, hmark, hmarks⟩
  · intro hmarked
    rcases hmarked with ⟨mark, hmark, hmarks⟩
    exact (h.newPlace_mark hmark hmarks).1

/-! ## The two passes -/

theorem Lays.laidOut (h : Lays {} pool placements layout left) : LaidOut placements := by
  have hlength := h.consecutive.stop_eq
  have hle := h.length_le (Nat.zero_le _)
  have hempty : ({} : Layout).length = 0 := rfl
  exact ⟨h.marks.1, by omega⟩

/-- What can be laid out is laid out, given the pool index of every operand. -/
theorem exists_lays (hlower : stream.mapM Instruction.lower pool = (.ok indices, left))
    (h : LaidOut (placedFrom 0 stream indices)) :
    ∃ layout, Lays {} pool (placedFrom 0 stream indices) layout left := by
  obtain ⟨stop, hconsecutive⟩ := consecutive_placedFrom 0 stream indices
  have hstop := hconsecutive.stop_eq
  rw [Nat.zero_add] at hstop
  obtain ⟨hinstructions, hindices⟩ := map_placedFrom hlower 0
  refine hconsecutive.lays_of_lowered rfl ?_ h.once (fun label _ => rfl) (hstop ▸ h.length)
  rw [hinstructions, hindices]
  exact hlower

theorem labelsWith_malformed {instruction : Instruction} {fault : Fault}
    (h : layout.labelsWith instruction = .error fault) : ∃ defect, fault = .malformed defect := by
  cases instruction with
  | label label =>
      unfold labelsWith at h
      dsimp only at h
      split at h
      · cases h
        exact ⟨_, rfl⟩
      · cases h
  | _ => cases h

/-- An event whose operand is in the pool can only be a label that the layout knows, or one event
too many. -/
theorem place_malformed {instruction : Instruction} {index : UInt16}
    (hlower : instruction.lower pool = (.ok index, left)) {fault : Fault}
    (hfail : layout.place instruction pool = (.error fault, after)) :
    ∃ defect, fault = .malformed defect := by
  unfold place at hfail
  rw [Edit.bind_apply, hlower] at hfail
  dsimp only at hfail
  cases hlabels : layout.labelsWith instruction with
  | error cause =>
      rw [hlabels] at hfail
      cases hfail
      exact labelsWith_malformed hlabels
  | ok labels =>
      rw [hlabels, Edit.bind_apply] at hfail
      change (if _ then _ else _ : Edit Layout) left = _ at hfail
      split at hfail
      · cases hfail
        exact ⟨_, rfl⟩
      · cases hfail

theorem foldlM_place_malformed (hlower : stream.mapM Instruction.lower pool = (.ok indices, left))
    {fault : Fault} (hfail : stream.foldlM place layout pool = (.error fault, after)) :
    ∃ defect, fault = .malformed defect := by
  induction stream generalizing pool indices layout with
  | nil => cases hfail
  | cons instruction stream ih =>
      obtain ⟨index, rest, middle, hhead, hrest, -⟩ := mapM_lower_cons.1 hlower
      rw [List.foldlM_cons, Edit.bind_apply] at hfail
      rcases hplace : layout.place instruction pool with ⟨outcome, next⟩
      rw [hplace] at hfail
      cases outcome with
      | ok grown =>
          obtain ⟨placement, rfl, hlowered, -, -⟩ := place_eq_ok_iff.1 hplace
          rw [hhead] at hlowered
          cases hlowered
          exact ih hrest hfail
      | error cause =>
          -- Nothing behind the first refusal is looked at, in the pool or in the layout.
          cases hfail
          exact place_malformed hhead hplace

end Layout

/-! ## Single events -/

section Emission

variable {labels : Std.TreeMap Nat Nat} {position : Nat}

theorem Instruction.bytes_eq_branchOverflow_iff {instruction : Instruction} {index : UInt16}
    {source place : Nat} :
    instruction.bytes labels position position index = .error (.branchOverflow source place) ↔
      ∃ opcode target, instruction = .jump opcode target ∧ Opcode.isWideBranch opcode = false ∧
        labels.contains target = true ∧ ¬ ReachesShort position (newPlace labels target) ∧
        source = position ∧ place = newPlace labels target := by
  have hbyte {value : UInt16} {defect : Defect} : byteOperand value defect ≠
      .error (.branchOverflow source place) := by
    unfold byteOperand
    split <;> simp
  have hlong {target : Label} : longDistance labels position target ≠
      .error (.branchOverflow source place) := by
    intro h
    obtain ⟨_, h⟩ := longDistance_malformed h
    cases h
  cases instruction with
  | jump opcode target =>
      cases hwide : Opcode.isWideBranch opcode with
      | true => simp [bytes, hwide, fmap_eq_error_iff, hlong]
      | false => simp [bytes, hwide, fmap_eq_error_iff, shortDistance_eq_branchOverflow_iff]
  | push opcode value =>
      by_cases hop : opcode = Opcode.bipush
      · by_cases hvalue : -128 ≤ value.toInt ∧ value.toInt ≤ 127 <;> simp [bytes, hop, hvalue]
      · simp [bytes, hop]
  | slot opcode index wide => cases wide <;> simp [bytes, fmap_eq_error_iff, hbyte]
  | increment index delta wide =>
      cases wide with
      | true => simp [bytes]
      | false =>
          by_cases hnarrow : index.toNat ≤ 255 ∧ -128 ≤ delta.toInt ∧ delta.toInt ≤ 127 <;>
            simp [bytes, hnarrow]
  | tableSwitch default low high targets =>
      simp only [bytes, bind_eq_error_iff, hlong, pure_ne_error, and_false, exists_false, or_false,
        false_or, reduceCtorEq, false_and, iff_false, not_exists, not_and]
      intro _ _ htargets
      obtain ⟨target, -, htarget⟩ := exists_of_mapM_eq_error htargets
      exact hlong htarget
  | lookupSwitch default pairs =>
      simp only [bytes, bind_eq_error_iff, hlong, pure_ne_error, and_false, exists_false, or_false,
        false_or, reduceCtorEq, false_and, iff_false, not_exists, not_and]
      intro _ _ hentries
      obtain ⟨⟨key, target⟩, -, hentry⟩ := exists_of_mapM_eq_error hentries
      exact hlong (fmap_eq_error_iff.1 hentry)
  | constant opcode index =>
      by_cases hop : opcode = Opcode.ldc <;> simp [bytes, hop, fmap_eq_error_iff, hbyte]
  | loadString text => by_cases hshort : index.toNat ≤ 255 <;> simp [bytes, hshort]
  | invoke call =>
      have hparse : MethodDescriptor.parse call.descriptor ≠
          .error (.branchOverflow source place) := by
        unfold MethodDescriptor.parse
        split <;> simp
      by_cases hkind : call.kind = .interface
      · simp only [bytes, callBytes, hkind, if_true, bind_eq_error_iff, hparse, false_or]
        simp only [reduceCtorEq, false_and, exists_false, iff_false, not_exists, not_and]
        intro descriptor _ hcount
        split at hcount
        · simp [fmap_eq_error_iff] at hcount
        · cases hcount
      · simp [bytes, callBytes, hkind]
  | _ => simp [bytes]

end Emission

variable {pool left : Pool} {layout : Layout} {stream : List Instruction} {indices : List UInt16}
  {placements : List Placement}

theorem Placement.writable_iff (h : Layout.Lays {} pool placements layout left)
    {placement : Placement} :
    placement.Writable placements ↔ placement.Encodable layout.labels := by
  have hreaches {position : Nat} {label : Label} (hlabel : layout.labels.contains label = true) :
      ReachesShort position (newPlace layout.labels label) ↔
        ∀ mark ∈ placements, mark.instruction = .label label →
          ReachesShort position mark.position := by
    constructor
    · intro hreach mark hmark hmarks
      rwa [← (h.newPlace_mark hmark hmarks).2]
    · intro hall
      obtain ⟨mark, hmark, hmarks, hplace⟩ := h.exists_mark hlabel
      exact hplace ▸ hall mark hmark hmarks
  obtain ⟨instruction, position, index⟩ := placement
  have hmarked : (∀ target ∈ instruction.targets,
      ∃ mark ∈ placements, mark.instruction = .label target) ↔
        ∀ target ∈ instruction.targets, layout.labels.contains target = true :=
    forall₂_congr fun target _ => h.contains_iff_marked.symm
  constructor
  · intro hwritable
    have hplaced := hmarked.1 hwritable.marked
    refine ⟨hplaced, ?_⟩
    cases instruction with
    | push opcode value =>
        rintro rfl
        exact hwritable.byteValue rfl
    | slot opcode index wide =>
        rintro rfl
        exact hwritable.byteSlot rfl
    | increment index delta wide =>
        rintro rfl
        exact hwritable.byteIncrement rfl
    | jump opcode target =>
        intro hshort
        exact (hreaches (hplaced target List.mem_cons_self)).2 (hwritable.reaches rfl hshort)
    | constant opcode index =>
        rintro rfl
        exact hwritable.byteConstant rfl
    | invoke call =>
        intro hkind
        obtain ⟨descriptor, hparsed, hle⟩ := hwritable.arguments rfl hkind
        rw [Call.interfaceCount_eq hparsed]
        omega
    | _ => trivial
  · intro hencodable
    refine ⟨hmarked.2 hencodable.1, ?_, ?_, ?_, ?_, ?_, ?_⟩
    · rintro opcode target rfl hshort
      exact (hreaches (hencodable.1 target List.mem_cons_self)).1 (hencodable.2 hshort)
    · rintro value rfl
      exact hencodable.2 rfl
    · rintro opcode index rfl
      exact hencodable.2 rfl
    · rintro index delta rfl
      exact hencodable.2 rfl
    · rintro index rfl
      exact hencodable.2 rfl
    · rintro call rfl hkind
      obtain ⟨hpositive, hle⟩ := hencodable.2 hkind
      obtain ⟨descriptor, hparsed⟩ := Call.parse_of_interfaceCount_pos hpositive
      rw [Call.interfaceCount_eq hparsed] at hle
      exact ⟨descriptor, hparsed, by omega⟩

/-! ## Whole streams -/

theorem encodeStream_ok_iff (hlower : stream.mapM Instruction.lower pool = (.ok indices, left)) :
    (∃ encoded, (encodeStream stream pool).1 = .ok encoded) ↔
      Representable (Layout.placedFrom 0 stream indices) := by
  constructor
  · intro h
    rcases h with ⟨encoded, hencoded⟩
    obtain ⟨placements, layout, hstream, hlays, hall, -⟩ :=
      encodeStream_eq_ok_iff.1 (Prod.ext hencoded rfl)
    obtain rfl : placements = Layout.placedFrom 0 stream indices :=
      hlays.eq_placedFrom hstream hlower
    exact ⟨hlays.laidOut, fun placement hmem =>
      (Placement.writable_iff hlays).2 (hall placement hmem)⟩
  · intro h
    obtain ⟨layout, hlays⟩ := Layout.exists_lays hlower h.toLaidOut
    have hall : ∀ placement ∈ Layout.placedFrom 0 stream indices,
        placement.Encodable layout.labels := by
      intro placement hmem
      exact (Placement.writable_iff hlays).1 (h.writable placement hmem)
    have hencoded := encodeStream_eq_ok_iff.2
      ⟨_, layout, (Layout.map_placedFrom hlower 0).1, hlays, hall, rfl⟩
    exact ⟨_, congrArg Prod.fst hencoded⟩

/-- Of what is laid out, the first event that cannot be written decides. -/
theorem Layout.Lays.emit_eq_branchOverflow_iff (h : Lays {} pool placements layout left)
    {source target : Nat} :
    layout.emit = .error (.branchOverflow source target) ↔ BreaksAt placements source target := by
  rw [h.emit_eq_error_iff, Layout.foldlM_emit_eq_error_iff h.consecutive rfl]
  simp only [Instruction.bytes_eq_branchOverflow_iff, ← Placement.writable_iff h]
  constructor
  · intro hfirst
    rcases hfirst with ⟨front, placement, back, hsplit, hfront, opcode, label, hjump, hshort,
      hlabel, hfar, rfl, rfl⟩
    obtain ⟨mark, hmark, hmarks, hplace⟩ := h.exists_mark hlabel
    exact ⟨h.laidOut, front, placement, back, opcode, label, hsplit, hfront, hjump, hshort, rfl,
      ⟨mark, hmark, hmarks, hplace⟩, hfar⟩
  · intro hbreaks
    rcases hbreaks.first with ⟨front, placement, back, opcode, label, hsplit, hfront, hjump,
      hshort, rfl, ⟨mark, hmark, hmarks, rfl⟩, hfar⟩
    obtain ⟨hlabel, hplace⟩ := h.newPlace_mark hmark hmarks
    rw [← hplace] at hfar ⊢
    exact ⟨front, placement, back, hsplit, hfront, opcode, label, hjump, hshort, hlabel, hfar,
      rfl, rfl⟩

theorem encodeStream_eq_branchOverflow_iff
    (hlower : stream.mapM Instruction.lower pool = (.ok indices, left)) {source target : Nat} :
    (encodeStream stream pool).1 = .error (.branchOverflow source target) ↔
      BreaksAt (Layout.placedFrom 0 stream indices) source target := by
  unfold encodeStream
  rw [Edit.bind_apply]
  rcases hlayout : Layout.ofStream stream pool with ⟨outcome, after⟩
  cases outcome with
  | error cause =>
      dsimp only
      constructor
      · intro h
        cases h
        obtain ⟨_, h⟩ := Layout.foldlM_place_malformed hlower hlayout
        cases h
      · intro h
        obtain ⟨layout, hlays⟩ := Layout.exists_lays hlower h.laidOut
        rw [Layout.ofStream_eq_ok_iff.2 ⟨_, (Layout.map_placedFrom hlower 0).1, hlays⟩] at hlayout
        cases hlayout
  | ok layout =>
      obtain ⟨placements, hstream, hlays⟩ := Layout.ofStream_eq_ok_iff.1 hlayout
      obtain rfl : placements = Layout.placedFrom 0 stream indices :=
        hlays.eq_placedFrom hstream hlower
      rw [← hlays.emit_eq_branchOverflow_iff]
      dsimp only
      rw [Edit.bind_apply]
      cases layout.emit with
      | error cause =>
          change (Except.error cause : Except Fault EncodedCode) = _ ↔ _
          simp
      | ok code =>
          change (Except.ok { code, offsets := layout.labels } : Except Fault EncodedCode) = _ ↔ _
          simp

/-- Encoding succeeds exactly for the streams that have a code array, and the fault is that of a
branch exactly where the first event that cannot be written is a branch that is too long. -/
theorem encodeStream_exactly (hlower : stream.mapM Instruction.lower pool = (.ok indices, left)) :
    ((∃ encoded, (encodeStream stream pool).1 = .ok encoded) ↔
      Representable (Layout.placedFrom 0 stream indices)) ∧
    ∀ source target, (encodeStream stream pool).1 = .error (.branchOverflow source target) ↔
      BreaksAt (Layout.placedFrom 0 stream indices) source target :=
  ⟨encodeStream_ok_iff hlower, fun _ _ => encodeStream_eq_branchOverflow_iff hlower⟩

/-- A jump table, and a short branch behind it to its front. -/
def tableLoop (targets : List Label) : List Instruction :=
  [.label 4, .tableSwitch 4 0 8191 targets, .jump 0xA7 4]

/-- A table with too many entries is all that keeps its branch from being written. -/
theorem breaksAt_tableLoop {targets : List Label} {source : Nat}
    (htargets : ∀ target ∈ targets, target = 4) (hsource : 16 + 4 * targets.length = source)
    (hfar : 32768 < source) (hroom : source + 3 ≤ maxCodeLength) :
    BreaksAt (Layout.placedFrom 0 (tableLoop targets) [0, 0, 0]) source 0 := by
  have hplaced : Layout.placedFrom 0 (tableLoop targets) [0, 0, 0] =
      [⟨.label 4, 0, 0⟩, ⟨.tableSwitch 4 0 8191 targets, 0, 0⟩, ⟨.jump 0xA7 4, source, 0⟩] := by
    simp [tableLoop, Layout.placedFrom, Instruction.size, Cursor.padding, hsource]
  have hsize : Placement.size ⟨.tableSwitch 4 0 8191 targets, 0, 0⟩ = source := by
    simp [Placement.size, Instruction.size, Cursor.padding, hsource]
  rw [hplaced]
  refine ⟨⟨by simp [Instruction.marked?], ?_⟩, [_, _], _, [], 0xA7, 4, rfl, ?_, rfl, by decide,
    rfl, ⟨_, List.mem_cons_self, rfl, rfl⟩, ?_⟩
  · have hjump : Placement.size ⟨.jump 0xA7 4, source, 0⟩ = 3 := rfl
    have hlabel : Placement.size ⟨.label 4, 0, 0⟩ = 0 := rfl
    simp only [List.map_cons, List.map_nil, List.sum_cons, List.sum_nil]
    omega
  · intro earlier hearlier
    rcases List.mem_pair.1 hearlier with rfl | rfl
    · constructor <;> simp [Instruction.targets]
    · constructor <;> simp [Instruction.targets]
      intro target htarget
      exact (htargets target htarget).symm
  · unfold ReachesShort
    omega

/-- With 8192 entries, the table fills half of a code array. -/
theorem tableLoop_breaks :
    (tableLoop (List.replicate 8192 4)).mapM Instruction.lower Pool.new =
        (.ok [0, 0, 0], Pool.new) ∧
      (encodeStream (tableLoop (List.replicate 8192 4)) Pool.new).1 =
        .error (.branchOverflow 32784 0) := by
  have hlower : (tableLoop (List.replicate 8192 4)).mapM Instruction.lower Pool.new =
      (.ok [0, 0, 0], Pool.new) := rfl
  have hlength : (List.replicate 8192 4).length = 8192 := List.length_replicate
  refine ⟨hlower, ((encodeStream_exactly hlower).2 32784 0).2 ?_⟩
  exact breaksAt_tableLoop (fun _ => List.eq_of_mem_replicate) (by rw [hlength]) (by decide)
    (by decide)

end CallProbe
