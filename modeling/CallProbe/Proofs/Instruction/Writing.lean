import CallProbe.Instruction.Emission
import CallProbe.Proofs.Instruction.Form
import CallProbe.Proofs.Instruction.Placement

/-!
# Writing instructions

What an event becomes once it has its place: its labels are offsets and its symbolic
operand is a pool index. The bytes that are written for it are the pattern of that
instruction, with zeros where the pattern leaves a byte open.
-/

namespace CallProbe

open Outcome

/-- The new place of a label that has one. -/
def newPlace (labels : Std.TreeMap Nat Nat) (label : Label) : Nat := labels.getD label 0

namespace Instruction

/-- The instruction with moved labels and with `index` for its symbolic operand. -/
def resolved (move : Label → Nat) (index : UInt16) : Instruction → Instruction
  | label name => label (move name)
  | line number start => line number (move start)
  | jump opcode target => jump opcode (move target)
  | tableSwitch default low high targets =>
    tableSwitch (move default) low high (targets.map move)
  | lookupSwitch default pairs =>
    lookupSwitch (move default) (pairs.map fun pair => (pair.1, move pair.2))
  | loadString _ => constant (if index.toNat ≤ 255 then Opcode.ldc else Opcode.ldcWide) index
  | invoke call => invoke { call with poolIndex := some index }
  | instruction => instruction

/-- Every target has a place, and the operands fit the width they are written with. -/
def Encodable (labels : Std.TreeMap Nat Nat) (position : Nat) (instruction : Instruction) : Prop :=
  (∀ target ∈ instruction.targets, labels.contains target = true) ∧
    match instruction with
    | push opcode value => opcode = Opcode.bipush → -128 ≤ value.toInt ∧ value.toInt ≤ 127
    | slot _ index wide => wide = false → index.toNat ≤ 255
    | increment index delta wide =>
      wide = false → index.toNat ≤ 255 ∧ -128 ≤ delta.toInt ∧ delta.toInt ≤ 127
    | jump opcode target =>
      Opcode.isWideBranch opcode = false → ReachesShort position (newPlace labels target)
    | constant opcode index => opcode = Opcode.ldc → index.toNat ≤ 255
    | invoke call => call.kind = .interface → 0 < call.interfaceCount ∧ call.interfaceCount ≤ 255
    | _ => True

end Instruction

/-! ## Distances -/

variable {labels : Std.TreeMap Nat Nat} {position place : Nat}

theorem placeOf_eq_ok_iff {label : Label} :
    placeOf labels label = .ok place ↔
      labels.contains label = true ∧ place = newPlace labels label := by
  unfold placeOf newPlace
  rw [Std.TreeMap.getD_eq_getD_getElem?, ← Std.TreeMap.isSome_getElem?_eq_contains]
  cases labels[label]? <;> simp [eq_comm]

theorem place_eq_some_iff {label : Label} : labels[label]? = some place ↔
    labels.contains label = true ∧ newPlace labels label = place := by
  unfold newPlace
  rw [Std.TreeMap.getD_eq_getD_getElem?, ← Std.TreeMap.isSome_getElem?_eq_contains]
  cases labels[label]? <;> simp

theorem longDistance_eq_ok_iff {target : Label} {bytes : Bytes} :
    longDistance labels position target = .ok bytes ↔
      labels.contains target = true ∧ bytes = distance32 position (newPlace labels target) := by
  unfold longDistance distance32
  simp only [bind_eq_ok_iff, placeOf_eq_ok_iff, pure_eq_ok_iff]
  constructor
  · intro h
    rcases h with ⟨_, ⟨hplaced, rfl⟩, rfl⟩
    exact ⟨hplaced, rfl⟩
  · intro h
    exact ⟨_, ⟨h.1, rfl⟩, h.2⟩

theorem shortDistance_eq_ok_iff {target : Label} {bytes : Bytes} :
    shortDistance labels position target = .ok bytes ↔
      labels.contains target = true ∧ ReachesShort position (newPlace labels target) ∧
        bytes = distance16 position (newPlace labels target) := by
  unfold shortDistance distance16 ReachesShort
  simp only [bind_eq_ok_iff, placeOf_eq_ok_iff]
  constructor
  · intro h
    rcases h with ⟨_, ⟨hplaced, rfl⟩, h⟩
    split at h
    · rename_i hreach
      exact ⟨hplaced, hreach, pure_eq_ok_iff.1 h⟩
    · exact absurd h throw_ne_ok
  · intro h
    rcases h with ⟨hplaced, hreach, rfl⟩
    refine ⟨_, ⟨hplaced, rfl⟩, ?_⟩
    rw [if_pos hreach]
    rfl

namespace Instruction

open BytePattern

/-! ## Single instructions -/

theorem byteOperand_eq_ok_iff {value : UInt16} {defect : Defect} {bytes : Bytes} :
    byteOperand value defect = .ok bytes ↔ value.toNat ≤ 255 ∧ bytes = [value.toUInt8] := by
  unfold byteOperand
  split
  · rename_i hle
    simp [hle, eq_comm]
  · rename_i hgt
    simp [hgt]

theorem callBytes_eq_ok_iff {call : Call} {index : UInt16} {written : Bytes} :
    callBytes call index = .ok written ↔
      (call.kind = .interface → 0 < call.interfaceCount ∧ call.interfaceCount ≤ 255) ∧
        written = ((invoke { call with poolIndex := some index }).pattern position).zeroed := by
  have hpattern : ((invoke { call with poolIndex := some index }).pattern position).zeroed =
      call.kind.opcode :: bytes16 index ++
        if call.kind = .interface then [UInt8.ofNat call.interfaceCount, 0] else [] := by
    by_cases hkind : call.kind = .interface <;> simp [pattern, hkind, Call.interfaceCount]
  rw [hpattern]
  unfold callBytes
  by_cases hkind : call.kind = .interface
  · simp only [hkind, if_true, bind_eq_ok_iff, forall_const]
    constructor
    · intro h
      rcases h with ⟨descriptor, hparsed, h⟩
      rw [Call.interfaceCount_eq hparsed]
      split at h
      · obtain ⟨_, hthrow, _⟩ := bind_eq_ok_iff.1 h
        exact absurd hthrow throw_ne_ok
      · rename_i hle
        exact ⟨⟨by omega, by omega⟩, pure_eq_ok_iff.1 h⟩
    · intro h
      rcases h with ⟨⟨hpositive, hle⟩, rfl⟩
      obtain ⟨descriptor, hparsed⟩ := Call.parse_of_interfaceCount_pos hpositive
      rw [Call.interfaceCount_eq hparsed] at hle ⊢
      refine ⟨descriptor, hparsed, ?_⟩
      rw [if_neg (Nat.not_lt.2 hle)]
      rfl
  · simp [hkind]

theorem bytes_eq_ok_iff {index : UInt16} {instruction : Instruction} {written : Bytes} :
    instruction.bytes labels position position index = .ok written ↔
      instruction.Encodable labels position ∧
        written = ((instruction.resolved (newPlace labels) index).pattern position).zeroed := by
  cases instruction with
  | push opcode value =>
      by_cases hop : opcode = Opcode.bipush
      · by_cases hvalue : -128 ≤ value.toInt ∧ value.toInt ≤ 127 <;>
          simp [bytes, Encodable, resolved, pattern, targets, hop, hvalue]
      · simp [bytes, Encodable, resolved, pattern, targets, hop]
  | slot opcode index wide =>
      cases wide with
      | true => simp [bytes, Encodable, resolved, pattern, targets]
      | false =>
          simp [bytes, Encodable, resolved, pattern, targets, fmap_eq_ok_iff,
            byteOperand_eq_ok_iff]
  | increment index delta wide =>
      cases wide with
      | true => simp [bytes, Encodable, resolved, pattern, targets]
      | false =>
          by_cases hnarrow : index.toNat ≤ 255 ∧ -128 ≤ delta.toInt ∧ delta.toInt ≤ 127 <;>
            simp [bytes, Encodable, resolved, pattern, targets, hnarrow]
  | jump opcode target =>
      cases hwide : Opcode.isWideBranch opcode with
      | true =>
          simp [bytes, Encodable, resolved, pattern, targets, hwide, fmap_eq_ok_iff,
            longDistance_eq_ok_iff]
      | false =>
          simp [bytes, Encodable, resolved, pattern, targets, hwide, fmap_eq_ok_iff,
            shortDistance_eq_ok_iff, and_assoc]
  | tableSwitch default low high targets =>
      have hwritten : ((resolved (newPlace labels) index
          (tableSwitch default low high targets)).pattern position).zeroed =
          Opcode.tableSwitch :: switchPadding position
            ++ distance32 position (newPlace labels default)
            ++ bytes32 low.toUInt32 ++ bytes32 high.toUInt32
            ++ (targets.map fun target =>
              distance32 position (newPlace labels target)).flatten := by
        simp [resolved, pattern, switchPadding, List.flatMap, Function.comp_def]
      rw [hwritten]
      simp only [bytes, Encodable, bind_eq_ok_iff, longDistance_eq_ok_iff,
        mapM_eq_map_iff (fun _ _ => longDistance_eq_ok_iff), pure_eq_ok_iff]
      constructor
      · intro h
        rcases h with ⟨_, ⟨hdefault, rfl⟩, _, ⟨htargets, rfl⟩, rfl⟩
        exact ⟨⟨List.forall_mem_cons.2 ⟨hdefault, htargets⟩, trivial⟩, rfl⟩
      · intro h
        rcases h with ⟨⟨hall, -⟩, rfl⟩
        obtain ⟨hdefault, htargets⟩ := List.forall_mem_cons.1 hall
        exact ⟨_, ⟨hdefault, rfl⟩, _, ⟨htargets, rfl⟩, rfl⟩
  | lookupSwitch default pairs =>
      have hwritten : ((resolved (newPlace labels) index
          (lookupSwitch default pairs)).pattern position).zeroed =
          Opcode.lookupSwitch :: switchPadding position
            ++ distance32 position (newPlace labels default)
            ++ bytes32 (UInt32.ofNat pairs.length) ++ (pairs.map fun pair =>
              bytes32 pair.1.toUInt32 ++ distance32 position (newPlace labels pair.2)).flatten := by
        simp [resolved, pattern, switchPadding, List.flatMap, Function.comp_def]
      rw [hwritten]
      have hpair (pair : Int32 × Label) (entry : Bytes) :
          (do return bytes32 pair.1.toUInt32 ++ (← longDistance labels position pair.2)) =
            .ok entry ↔ labels.contains pair.2 = true ∧
              entry = bytes32 pair.1.toUInt32 ++ distance32 position (newPlace labels pair.2) := by
        simp [fmap_eq_ok_iff, longDistance_eq_ok_iff]
      simp only [bytes, Encodable, bind_eq_ok_iff, longDistance_eq_ok_iff, mapM_eq_map_iff hpair,
        pure_eq_ok_iff]
      constructor
      · intro h
        rcases h with ⟨_, ⟨hdefault, rfl⟩, _, ⟨hpairs, rfl⟩, rfl⟩
        refine ⟨⟨List.forall_mem_cons.2 ⟨hdefault, ?_⟩, trivial⟩, rfl⟩
        exact List.forall_mem_map.2 hpairs
      · intro h
        rcases h with ⟨⟨hall, -⟩, rfl⟩
        obtain ⟨hdefault, htargets⟩ := List.forall_mem_cons.1 hall
        exact ⟨_, ⟨hdefault, rfl⟩, _, ⟨List.forall_mem_map.1 htargets, rfl⟩, rfl⟩
  | constant opcode index =>
      by_cases hop : opcode = Opcode.ldc
      · simp [bytes, Encodable, resolved, pattern, targets, hop, fmap_eq_ok_iff,
          byteOperand_eq_ok_iff]
      · simp [bytes, Encodable, resolved, pattern, targets, hop]
  | loadString text =>
      by_cases hshort : index.toNat ≤ 255
      · simp [bytes, Encodable, resolved, pattern, targets, hshort]
      · simp [bytes, Encodable, resolved, pattern, targets, hshort, Opcode.ldcWide, Opcode.ldc]
  | invoke call =>
      simp only [bytes, resolved, @callBytes_eq_ok_iff position]
      simp [Encodable, targets]
  | invokeDynamic index =>
      have hzeros : bytes16 0 = [0, 0] := by decide
      simp [bytes, Encodable, resolved, pattern, targets, hzeros]
  | _ => simp [bytes, Encodable, resolved, pattern, targets]

theorem resolved_ne_loadString {move : Label → Nat} {index : UInt16} (instruction : Instruction)
    (text : String) : instruction.resolved move index ≠ loadString text := by
  cases instruction <;> simp [resolved]

theorem size_resolved (move : Label → Nat) (position : Nat) (index other : UInt16)
    (instruction : Instruction) :
    (instruction.resolved move index).size position other = instruction.size position index := by
  cases instruction with
  | loadString text =>
      by_cases hshort : index.toNat ≤ 255 <;>
        simp [resolved, size, hshort, Opcode.ldc, Opcode.ldcWide]
  | _ => simp [resolved, size]

end Instruction

/-! ## Code arrays -/

namespace Placement

/-- The event as it is read back. -/
def resolved (labels : Std.TreeMap Nat Nat) (placement : Placement) : Instruction :=
  placement.instruction.resolved (newPlace labels) placement.index

def bytes (labels : Std.TreeMap Nat Nat) (placement : Placement) : Bytes :=
  ((placement.resolved labels).pattern placement.position).zeroed

def Encodable (labels : Std.TreeMap Nat Nat) (placement : Placement) : Prop :=
  placement.instruction.Encodable labels placement.position

@[simp] theorem length_bytes (labels : Std.TreeMap Nat Nat) (placement : Placement) :
    (placement.bytes labels).length = placement.size := by
  unfold bytes resolved size
  rw [BytePattern.length_zeroed, Instruction.length_pattern
    (Instruction.resolved_ne_loadString placement.instruction) _ placement.index]
  exact Instruction.size_resolved ..

theorem emit_eq_ok_iff {placement : Placement} {written result : Array UInt8}
    (h : written.size = placement.position) :
    placement.emit labels written = .ok result ↔
      placement.Encodable labels ∧ result.toList = written.toList ++ placement.bytes labels := by
  unfold emit
  rw [h]
  simp only [bind_eq_ok_iff, Instruction.bytes_eq_ok_iff, pure_eq_ok_iff]
  constructor
  · intro hok
    rcases hok with ⟨_, ⟨hencodable, rfl⟩, rfl⟩
    exact ⟨hencodable, by simp [bytes, resolved]⟩
  · intro hok
    refine ⟨_, ⟨hok.1, rfl⟩, Array.toList_inj.1 ?_⟩
    simpa [bytes, resolved] using hok.2

end Placement

namespace Layout

/-- A label leads to the event that marks it. -/
theorem Lays.newPlace_mark {pool left : Pool} {placements : List Placement} {layout : Layout}
    (h : Lays {} pool placements layout left) {mark : Placement} (hmark : mark ∈ placements)
    {label : Label} (hlabel : mark.instruction = .label label) :
    layout.labels.contains label = true ∧ newPlace layout.labels label = mark.position :=
  place_eq_some_iff.1 (h.labels_getElem?_iff.2 (.inr ⟨mark, hmark, hlabel, rfl⟩))

theorem foldlM_emit_eq_ok_iff {placements : List Placement} {start stop : Nat}
    (h : Consecutive start placements stop) {written result : Array UInt8}
    (hstart : written.size = start) :
    placements.foldlM (Placement.emit labels) written = .ok result ↔
      (∀ placement ∈ placements, placement.Encodable labels) ∧
        result.toList = written.toList ++ placements.flatMap (Placement.bytes labels) := by
  induction h generalizing written with
  | nil => simp [Array.toList_inj]
  | @cons stop placement rest tail ih =>
      rw [List.foldlM_cons, bind_eq_ok_iff, List.forall_mem_cons, List.flatMap_cons]
      constructor
      · intro hok
        rcases hok with ⟨middle, hemit, hrest⟩
        obtain ⟨hencodable, hmiddle⟩ := (Placement.emit_eq_ok_iff hstart).1 hemit
        have hsize : middle.size = placement.position + placement.size := by
          simpa [hstart] using congrArg List.length hmiddle
        obtain ⟨hall, hresult⟩ := (ih hsize).1 hrest
        exact ⟨⟨hencodable, hall⟩, by rw [hresult, hmiddle, List.append_assoc]⟩
      · intro hok
        rcases hok with ⟨⟨hencodable, hall⟩, hresult⟩
        have hsize : (written ++ placement.bytes labels).size =
            placement.position + placement.size := by
          rw [← Array.length_toList, Array.toList_appendList, List.length_append,
            Array.length_toList, hstart, Placement.length_bytes]
        refine ⟨written ++ placement.bytes labels, ?_, (ih hsize).2 ⟨hall, ?_⟩⟩
        · exact (Placement.emit_eq_ok_iff hstart).2 ⟨hencodable, by simp⟩
        · rw [hresult]
          simp

end Layout

/-- The two halves of encoding: a layout, and the bytes of all its placements in turn. -/
theorem encodeStream_eq_ok_iff {stream : List Instruction} {pool left : Pool}
    {encoded : EncodedCode} :
    encodeStream stream pool = (.ok encoded, left) ↔ ∃ placements layout,
      placements.map Placement.instruction = stream ∧
        Layout.Lays {} pool placements layout left ∧
        (∀ placement ∈ placements, placement.Encodable layout.labels) ∧
        encoded = { code := placements.flatMap (Placement.bytes layout.labels),
                    offsets := layout.labels } := by
  unfold encodeStream
  simp only [Pool.Edit.bind_eq_ok_iff, Layout.ofStream_eq_ok_iff, Pool.Edit.lift_eq_ok_iff,
    Pool.Edit.pure_eq_ok_iff]
  have hemit {placements : List Placement} {layout : Layout} (hlays : Layout.Lays {} pool placements
      layout left) (code : Bytes) : layout.emit = .ok code ↔
        (∀ placement ∈ placements, placement.Encodable layout.labels) ∧
          code = placements.flatMap (Placement.bytes layout.labels) := by
    unfold Layout.emit
    have hplaced : layout.placed.reverse = placements := by simp [hlays.placed]
    have hempty : (#[] : Array UInt8).size = ({} : Layout).length := rfl
    simp only [hplaced, bind_eq_ok_iff, pure_eq_ok_iff,
      Layout.foldlM_emit_eq_ok_iff hlays.consecutive hempty]
    constructor
    · intro h
      rcases h with ⟨result, ⟨hall, hresult⟩, rfl⟩
      exact ⟨hall, by simpa using hresult⟩
    · intro h
      exact ⟨code.toArray, ⟨h.1, by simpa using h.2⟩, by simp⟩
  constructor
  · intro h
    rcases h with ⟨layout, _, ⟨placements, rfl, hlays⟩, code, _, ⟨hcode, rfl⟩, rfl, rfl⟩
    obtain ⟨hall, rfl⟩ := (hemit hlays code).1 hcode
    exact ⟨placements, layout, rfl, hlays, hall, rfl⟩
  · intro h
    rcases h with ⟨placements, layout, rfl, hlays, hall, rfl⟩
    exact ⟨layout, left, ⟨placements, rfl, hlays⟩, _, left, ⟨(hemit hlays _).2 ⟨hall, rfl⟩, rfl⟩,
      rfl, rfl⟩

end CallProbe
