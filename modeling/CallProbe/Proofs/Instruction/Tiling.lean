import CallProbe.Proofs.Instruction.Reading
import Mathlib.Data.List.Find
import Mathlib.Data.List.Perm.Subperm

/-!
# Code arrays as rows of instructions

Reading all instructions of a code array succeeds exactly where the code is a row of
pieces, each of which fits the pattern of a readable instruction. A stream is then
the row with a label wherever one is needed. Labels are only counted while the stream
is put together; as no two pieces start at the same offset, the count is right exactly
if every label has found its place.
-/

namespace CallProbe

open Outcome

variable {pool : Pool} {size offset : Nat}

namespace Instruction

theorem marked?_eq_none {instruction : Instruction} (h : instruction.isPseudo = false) :
    instruction.marked? = none := by
  cases instruction with
  | label _ => cases h
  | _ => rfl

/-- `code` is the row of instructions that starts at an offset. -/
inductive Tiles (pool : Pool) (size : Nat) : Nat → List (Nat × Instruction) → Bytes → Prop
  | nil {offset : Nat} : Tiles pool size offset [] []
  | cons {offset : Nat} {instruction : Instruction} {rest : List (Nat × Instruction)}
      {bytes code : Bytes} (readable : instruction.Readable pool size offset)
      (fits : (instruction.pattern offset).Fits bytes)
      (tail : Tiles pool size (offset + bytes.length) rest code) :
      Tiles pool size offset ((offset, instruction) :: rest) (bytes ++ code)

theorem Readable.not_pseudo {instruction : Instruction}
    (h : instruction.Readable pool size offset) : instruction.isPseudo = false := by
  have hrange := h.inRange
  cases instruction <;> first | exact hrange.elim | rfl

theorem Readable.length_pattern {instruction : Instruction}
    (h : instruction.Readable pool size offset) (index : UInt16) :
    (instruction.pattern offset).length = instruction.size offset index := by
  apply Instruction.length_pattern
  intro text heq
  subst heq
  exact h.inRange

theorem Readable.length_pos {instruction : Instruction} {bytes : Bytes}
    (h : instruction.Readable pool size offset) (hfits : (instruction.pattern offset).Fits bytes) :
    0 < bytes.length := by
  rw [hfits.length, h.length_pattern 0]
  exact size_pos h.not_pseudo offset 0

theorem tiles_nil_iff {instructions : List (Nat × Instruction)} :
    Tiles pool size offset instructions [] ↔ instructions = [] := by
  constructor
  · intro h
    generalize hcode : ([] : Bytes) = code at h
    cases h with
    | nil => rfl
    | cons readable fits _ =>
        have hpos := readable.length_pos fits
        simp [(List.append_eq_nil_iff.1 hcode.symm).1] at hpos
  · intro h
    subst h
    exact .nil

/-- The step of reading: one instruction off the front of the row. -/
theorem tiles_iff_reader {c : Cursor} (h : c.ahead ≠ []) {instructions : List (Nat × Instruction)} :
    Tiles pool size c.pos instructions c.ahead ↔ ∃ instruction d rest,
      reader pool size c = .ok (instruction, d) ∧ instructions = (c.pos, instruction) :: rest ∧
        Tiles pool size d.pos rest d.ahead := by
  constructor
  · intro ht
    generalize hcode : c.ahead = code at ht
    cases ht with
    | nil => exact absurd hcode h
    | @cons _ instruction rest bytes code readable fits tail =>
        obtain ⟨d, hpass, hahead⟩ := c.passes_skip bytes code hcode
        refine ⟨instruction, d, rest, reader_eq_ok_iff.2 ⟨readable, bytes, fits, hpass⟩, rfl, ?_⟩
        rw [hpass.pos, hahead]
        exact tail
  · intro ht
    rcases ht with ⟨instruction, d, rest, hread, rfl, tail⟩
    obtain ⟨readable, bytes, fits, hpass⟩ := reader_eq_ok_iff.1 hread
    rw [hpass.ahead]
    rw [hpass.pos] at tail
    exact .cons readable fits tail

theorem readAfter_eq_ok_iff {found all : List (Nat × Instruction)} {bytes : Nat} {c : Cursor}
    (h : c.ahead.length ≤ bytes) :
    readAfter pool size found bytes c = .ok all ↔
      ∃ rest, all = found.reverse ++ rest ∧ Tiles pool size c.pos rest c.ahead := by
  have hend (hnil : c.ahead = []) : Except.ok found.reverse = (.ok all : Except Fault _) ↔
      ∃ rest, all = found.reverse ++ rest ∧ Tiles pool size c.pos rest c.ahead := by
    rw [hnil]
    simp [tiles_nil_iff, eq_comm]
  induction bytes generalizing found c with
  | zero => exact hend (List.eq_nil_of_length_eq_zero (Nat.le_zero.1 h))
  | succ bytes ih =>
      unfold readAfter Cursor.hasMore
      by_cases hnil : c.ahead = []
      · simpa [hnil] using hend hnil
      rw [if_pos (by simpa using hnil), bind_eq_ok_iff]
      constructor
      · intro hread
        rcases hread with ⟨⟨instruction, d⟩, hstep, hread⟩
        obtain ⟨readable, front, fits, hpass⟩ := reader_eq_ok_iff.1 hstep
        have hpos := readable.length_pos fits
        have hlen : d.ahead.length ≤ bytes := by
          rw [hpass.ahead, List.length_append] at h
          omega
        obtain ⟨rest, rfl, tail⟩ :=
          (ih hlen fun hd => by simp [hd, tiles_nil_iff, eq_comm]).1 hread
        exact ⟨(c.pos, instruction) :: rest, by simp, (tiles_iff_reader hnil).2
          ⟨instruction, d, rest, hstep, rfl, tail⟩⟩
      · intro hall
        rcases hall with ⟨rest, rfl, ht⟩
        obtain ⟨instruction, d, rest, hstep, rfl, tail⟩ := (tiles_iff_reader hnil).1 ht
        obtain ⟨readable, front, fits, hpass⟩ := reader_eq_ok_iff.1 hstep
        have hpos := readable.length_pos fits
        have hlen : d.ahead.length ≤ bytes := by
          rw [hpass.ahead, List.length_append] at h
          omega
        refine ⟨(instruction, d), hstep, ?_⟩
        exact (ih hlen fun hd => by simp [hd, tiles_nil_iff, eq_comm]).2 ⟨rest, by simp, tail⟩

theorem readAll_eq_ok_iff {code : Bytes} {instructions : List (Nat × Instruction)} :
    readAll pool code = .ok instructions ↔ Tiles pool code.length 0 instructions code := by
  unfold readAll
  have hle : (Cursor.ofBytes code).ahead.length ≤ code.length := Nat.le_refl _
  rw [readAfter_eq_ok_iff hle]
  simp [Cursor.ofBytes]

/-! ## Starts -/

theorem Tiles.code_eq_nil {code : Bytes} (h : Tiles pool size offset [] code) : code = [] := by
  cases h
  rfl

theorem Tiles.not_pseudo {instructions : List (Nat × Instruction)} {code : Bytes}
    (h : Tiles pool size offset instructions code) :
    ∀ entry ∈ instructions, entry.2.isPseudo = false := by
  induction h with
  | nil => simp
  | cons readable _ _ ih => exact List.forall_mem_cons.2 ⟨readable.not_pseudo, ih⟩

theorem Tiles.mem {instructions : List (Nat × Instruction)} {code : Bytes}
    (h : Tiles pool size offset instructions code) {entry : Nat × Instruction}
    (hmem : entry ∈ instructions) : entry.2.Readable pool size entry.1 ∧ offset ≤ entry.1 ∧
      entry.1 + (entry.2.pattern entry.1).length ≤ offset + code.length := by
  induction h with
  | nil => cases hmem
  | cons readable fits _ ih =>
      rw [List.length_append]
      rcases List.mem_cons.1 hmem with rfl | hmem
      · have hlen := fits.length
        exact ⟨readable, Nat.le_refl _, by dsimp only; omega⟩
      · obtain ⟨hreadable, hstart, hstop⟩ := ih hmem
        exact ⟨hreadable, by omega, by omega⟩

/-- No two instructions start at the same offset, and none starts at the end. -/
theorem Tiles.starts_lt {instructions : List (Nat × Instruction)} {code : Bytes}
    (h : Tiles pool size offset instructions code) :
    (instructions.map (·.1) ++ [offset + code.length]).Pairwise (· < ·) := by
  induction h with
  | nil => exact List.pairwise_singleton ..
  | @cons offset instruction rest bytes code readable fits tail ih =>
      have hpos := readable.length_pos fits
      rw [List.length_append, ← Nat.add_assoc, List.map_cons, List.cons_append]
      refine List.pairwise_cons.2 ⟨?_, ih⟩
      intro start hstart
      rcases List.mem_append.1 hstart with hstart | hstart
      · obtain ⟨entry, hentry, rfl⟩ := List.mem_map.1 hstart
        have hle := (tail.mem hentry).2.1
        dsimp only
        omega
      · rw [List.mem_singleton.1 hstart]
        dsimp only
        omega

theorem Tiles.starts_lt_length {instructions : List (Nat × Instruction)} {code : Bytes}
    (h : Tiles pool size 0 instructions code) :
    (instructions.map (·.1) ++ [code.length]).Pairwise (· < ·) := by
  have hstarts := h.starts_lt
  rwa [Nat.zero_add] at hstarts

theorem Tiles.le_length {instructions : List (Nat × Instruction)} {code : Bytes}
    (h : Tiles pool size 0 instructions code) {start : Nat}
    (hstart : start ∈ instructions.map (·.1) ++ [code.length]) : start ≤ code.length := by
  rcases List.mem_append.1 hstart with hinside | hend
  · obtain ⟨entry, hentry, rfl⟩ := List.mem_map.1 hinside
    have hstop := (h.mem hentry).2.2
    omega
  · exact Nat.le_of_eq (List.mem_singleton.1 hend)

/-- The row with zeros in the bytes that nobody reads. -/
def zeroedRow (instructions : List (Nat × Instruction)) : Bytes :=
  instructions.flatMap fun entry => (entry.2.pattern entry.1).zeroed

theorem Tiles.length_zeroedRow {instructions : List (Nat × Instruction)} {code : Bytes}
    (h : Tiles pool size offset instructions code) :
    (zeroedRow instructions).length = code.length := by
  induction h with
  | nil => rfl
  | cons _ fits _ ih =>
      unfold zeroedRow at *
      rw [List.flatMap_cons, List.length_append, List.length_append, ih,
        BytePattern.length_zeroed, fits.length]

theorem Tiles.zeroed {instructions : List (Nat × Instruction)} {code : Bytes}
    (h : Tiles pool size offset instructions code) :
    Tiles pool size offset instructions (zeroedRow instructions) := by
  induction h with
  | nil => exact .nil
  | cons readable fits _ ih =>
      refine .cons readable (BytePattern.zeroed_fits _) ?_
      rw [BytePattern.length_zeroed, ← fits.length]
      exact ih

/-- The offsets of the bytes that nobody reads: the padding of a switch, the last byte of an
interface call and the last two of a dynamic one. -/
def reserved (offset : Nat) : Instruction → List Nat
  | tableSwitch _ _ _ _ | lookupSwitch _ _ =>
    List.range' (offset + 1) (Cursor.padding 4 (offset + 1))
  | invoke call => if call.kind = .interface then [offset + 4] else []
  | invokeDynamic _ => [offset + 3, offset + 4]
  | _ => []

theorem pattern_getElem?_eq_none_iff {instruction : Instruction} {i : Nat} :
    (instruction.pattern offset)[i]? = some none ↔ offset + i ∈ instruction.reserved offset := by
  cases instruction with
  | tableSwitch default low high targets =>
      simp only [pattern, BytePattern.getElem?_gap_iff, reserved, List.mem_range'_1,
        List.length_singleton]
      omega
  | lookupSwitch default pairs =>
      simp only [pattern, BytePattern.getElem?_gap_iff, reserved, List.mem_range'_1,
        List.length_singleton]
      omega
  | invoke call =>
      by_cases hkind : call.kind = .interface
      · have hgap := @BytePattern.getElem?_gap_iff
          (call.kind.opcode :: bytes16 (call.poolIndex.getD 0) ++ [UInt8.ofNat call.interfaceCount])
          [] 1 i
        simp only [BytePattern.fixed, List.map_append, List.map_nil, List.append_nil,
          List.append_assoc] at hgap
        simp only [pattern, reserved, if_pos hkind, BytePattern.fixed, hgap]
        simp
        omega
      · simp [pattern, reserved, hkind, BytePattern.getElem?_fixed_ne]
  | invokeDynamic index =>
      have hgap := @BytePattern.getElem?_gap_iff (Opcode.invokeDynamic :: bytes16 index) [] 2 i
      simp only [BytePattern.fixed, List.map_nil, List.append_nil] at hgap
      simp only [pattern, reserved, BytePattern.fixed, hgap]
      simp
      omega
  | _ => simp [pattern, reserved, BytePattern.getElem?_fixed_ne]

theorem reserved_bounds {instruction : Instruction} {i : Nat}
    (h : i ∈ instruction.reserved offset) :
    offset ≤ i ∧ i < offset + (instruction.pattern offset).length := by
  have hle : offset ≤ i := by
    cases instruction with
    | tableSwitch _ _ _ _ => exact Nat.le_of_succ_le (List.mem_range'_1.1 h).1
    | lookupSwitch _ _ => exact Nat.le_of_succ_le (List.mem_range'_1.1 h).1
    | invoke call =>
        simp only [reserved] at h
        split at h
        · simp at h
          omega
        · cases h
    | invokeDynamic _ =>
        simp [reserved] at h
        omega
    | _ => cases h
  obtain ⟨k, rfl⟩ := Nat.exists_eq_add_of_le hle
  obtain ⟨hlt, -⟩ := List.getElem?_eq_some_iff.1 (pattern_getElem?_eq_none_iff.2 h)
  exact ⟨hle, by omega⟩

theorem Tiles.getElem?_zeroedRow {instructions : List (Nat × Instruction)} {code : Bytes}
    (h : Tiles pool size offset instructions code) (i : Nat) :
    (zeroedRow instructions)[i]? =
      if ∃ entry ∈ instructions, offset + i ∈ entry.2.reserved entry.1 then some 0
      else code[i]? := by
  induction h generalizing i with
  | nil => simp [zeroedRow]
  | @cons offset instruction rest bytes code readable fits tail ih =>
      have hzeroed : zeroedRow ((offset, instruction) :: rest) =
          (instruction.pattern offset).zeroed ++ zeroedRow rest := rfl
      have hlen : (instruction.pattern offset).zeroed.length = bytes.length := by
        rw [BytePattern.length_zeroed, fits.length]
      rw [hzeroed]
      by_cases hi : i < bytes.length
      · rw [List.getElem?_append_left (by omega), List.getElem?_append_left hi,
          fits.getElem?_zeroed]
        refine if_congr ?_ rfl rfl
        rw [pattern_getElem?_eq_none_iff, List.exists_mem_cons_iff]
        constructor
        · intro hhead
          exact .inl hhead
        · intro heither
          rcases heither with hhead | hrest
          · exact hhead
          · rcases hrest with ⟨entry, hentry, hreserved⟩
            have hstart := (tail.mem hentry).2.1
            have hbounds := (reserved_bounds hreserved).1
            omega
      · have hbehind : offset + bytes.length + (i - bytes.length) = offset + i := by omega
        rw [List.getElem?_append_right (by omega), List.getElem?_append_right (by omega), hlen,
          ih (i - bytes.length), hbehind]
        refine if_congr ?_ rfl rfl
        rw [List.exists_mem_cons_iff]
        constructor
        · intro hrest
          exact .inr hrest
        · intro heither
          rcases heither with hhead | hrest
          · have hbounds := (reserved_bounds hhead).2
            rw [← fits.length] at hbounds
            dsimp only at hbounds
            omega
          · exact hrest

end Instruction

/-! ## Streams -/

namespace MethodBody

variable {body : MethodBody} {instructions : List (Nat × Instruction)}
  {labels : Std.TreeSet Nat} {lines : Std.TreeMap Nat (List UInt16)}

/-- The label of an offset, if it needs one. -/
def labelAt (labels : Std.TreeSet Nat) (offset : Nat) : List Instruction :=
  if labels.contains offset then [.label offset] else []

/-- The label and the lines of an instruction, then the instruction. -/
def eventsAt (labels : Std.TreeSet Nat) (lines : Std.TreeMap Nat (List UInt16))
    (entry : Nat × Instruction) : List Instruction :=
  labelAt labels entry.1 ++ (lines.getD entry.1 []).map (.line · entry.1) ++ [entry.2]

/-- The offsets that can have a label: the starts of instructions and the end of the code. -/
def boundaries (body : MethodBody) (instructions : List (Nat × Instruction)) :
    Std.TreeSet Nat :=
  .ofList (body.code.length :: instructions.map (·.1))

/-- The label and the lines in front of an instruction. -/
def marksAt (labels : Std.TreeSet Nat) (lines : Std.TreeMap Nat (List UInt16)) (offset : Nat) :
    List Instruction :=
  labelAt labels offset ++ (lines.getD offset []).map (.line · offset)

theorem eventsAt_eq (labels : Std.TreeSet Nat) (lines : Std.TreeMap Nat (List UInt16))
    (entry : Nat × Instruction) :
    eventsAt labels lines entry = marksAt labels lines entry.1 ++ [entry.2] := rfl

theorem marksAt_empty (labels : Std.TreeSet Nat) (offset : Nat) :
    marksAt labels ∅ offset = labelAt labels offset := by
  simp [marksAt]

theorem mem_labelAt_iff {event : Instruction} {offset : Nat} :
    event ∈ labelAt labels offset ↔ labels.contains offset = true ∧ event = .label offset := by
  unfold labelAt
  by_cases hcontains : labels.contains offset = true
  · rw [if_pos hcontains, List.mem_singleton, and_iff_right hcontains]
  · rw [if_neg hcontains]
    simp [hcontains]

theorem isPseudo_labelAt {offset : Nat} :
    ∀ event ∈ labelAt labels offset, event.isPseudo = true := by
  intro event hevent
  rw [(mem_labelAt_iff.1 hevent).2]
  rfl

theorem isPseudo_marksAt {offset : Nat} :
    ∀ event ∈ marksAt labels lines offset, event.isPseudo = true := by
  intro event hevent
  rcases List.mem_append.1 hevent with hlabel | hline
  · exact isPseudo_labelAt event hlabel
  · obtain ⟨line, -, rfl⟩ := List.mem_map.1 hline
    rfl

theorem label_mem_labelAt_iff {label offset : Nat} :
    .label label ∈ labelAt labels offset ↔ labels.contains label = true ∧ label = offset := by
  rw [mem_labelAt_iff, Instruction.label.injEq]
  constructor
  · intro h
    exact ⟨h.2 ▸ h.1, h.2⟩
  · intro h
    exact ⟨h.2 ▸ h.1, h.2⟩

theorem label_mem_marksAt_iff {label offset : Nat} :
    .label label ∈ marksAt labels lines offset ↔
      labels.contains label = true ∧ label = offset := by
  simp [marksAt, label_mem_labelAt_iff]

theorem line_not_mem_labelAt {number : UInt16} {start offset : Nat} :
    .line number start ∉ labelAt labels offset := by
  intro h
  cases (mem_labelAt_iff.1 h).2

theorem line_mem_marksAt_iff {number : UInt16} {start offset : Nat} :
    .line number start ∈ marksAt labels lines offset ↔
      number ∈ lines.getD offset [] ∧ start = offset := by
  simp [marksAt, line_not_mem_labelAt, eq_comm]

/-- The instructions of a body with its labels and lines in front of them. -/
def events (body : MethodBody) (instructions : List (Nat × Instruction)) : List Instruction :=
  instructions.flatMap (eventsAt (body.labels instructions) body.linesByOffset)
    ++ labelAt (body.labels instructions) body.code.length

/-- What holds of labels, of lines and of all instructions holds of all events. -/
theorem forall_mem_events {p : Instruction → Prop}
    (hpseudo : ∀ event : Instruction, event.isPseudo = true → p event)
    (hentries : ∀ entry ∈ instructions, p entry.2) :
    ∀ event ∈ body.events instructions, p event := by
  intro event hevent
  rcases List.mem_append.1 hevent with hrow | hend
  · obtain ⟨entry, hentry, hevent⟩ := List.mem_flatMap.1 hrow
    rcases List.mem_append.1 hevent with hfront | hself
    · exact hpseudo event (isPseudo_marksAt event hfront)
    · rw [List.mem_singleton.1 hself]
      exact hentries entry hentry
  · exact hpseudo event (isPseudo_labelAt event hend)

theorem wellFormed_events {size offset : Nat} {code : Bytes}
    (h : Instruction.Tiles pool size offset instructions code) :
    ∀ event ∈ body.events instructions, event.WellFormed pool := by
  refine forall_mem_events ?_ fun entry hentry => (h.mem hentry).1.wellFormed
  intro event hpseudo
  cases event with
  | label _ => trivial
  | line _ _ => trivial
  | _ => cases hpseudo

/-- All labels are at starts of instructions or at the end of the code. -/
def Bounded (body : MethodBody) (instructions : List (Nat × Instruction)) : Prop :=
  ∀ label, (body.labels instructions).contains label = true →
    (body.boundaries instructions).contains label = true

theorem labels_contains_iff {label : Nat} :
    (body.labels instructions).contains label = true ↔
      (∃ entry ∈ instructions, label ∈ entry.2.targets) ∨ label ∈ body.offsets := by
  simp [labels, Std.TreeSet.contains_ofList]

theorem mem_referencedOffsets_iff {offset : Nat} :
    offset ∈ body.referencedOffsets ↔ offset ∈ body.offsets := by
  simp [referencedOffsets, Std.TreeSet.mem_ofList]

theorem boundaries_contains_iff {label : Nat} :
    (body.boundaries instructions).contains label = true ↔
      label = body.code.length ∨ ∃ entry ∈ instructions, entry.1 = label := by
  simp [boundaries, Std.TreeSet.contains_ofList]

theorem bounded_iff_mem_starts : body.Bounded instructions ↔
    ∀ label, (body.labels instructions).contains label = true →
      label ∈ instructions.map (·.1) ++ [body.code.length] := by
  unfold Bounded
  simp only [boundaries_contains_iff, List.mem_append, List.mem_map, List.mem_singleton, or_comm]

/-- A label stands at a start or at the end. -/
theorem Bounded.mem_starts (h : body.Bounded instructions) {label : Nat}
    (hlabel : (body.labels instructions).contains label = true) :
    label ∈ instructions.map (·.1) ++ [body.code.length] :=
  bounded_iff_mem_starts.1 h label hlabel

theorem marked_events (h : ∀ entry ∈ instructions, entry.2.isPseudo = false) :
    (body.events instructions).filterMap Instruction.marked? =
      (instructions.map (·.1) ++ [body.code.length]).filter
        ((body.labels instructions).contains ·) := by
  unfold events
  generalize body.labels instructions = labels
  have hlabel (offset : Nat) : (labelAt labels offset).filterMap Instruction.marked? =
      [offset].filter (labels.contains ·) := by
    unfold labelAt
    split <;> simp_all [Instruction.marked?]
  rw [List.filterMap_append, List.filter_append, hlabel]
  congr 1
  induction instructions with
  | nil => rfl
  | cons entry rest ih =>
      obtain ⟨hentry, hrest⟩ := List.forall_mem_cons.1 h
      have hlines (lines : List UInt16) :
          (lines.map (Instruction.line · entry.1)).filterMap Instruction.marked? = [] := by
        simp [Instruction.marked?]
      rw [List.flatMap_cons, List.filterMap_append, ih hrest, eventsAt, List.filterMap_append,
        List.filterMap_append, hlabel, hlines,
        List.filterMap_cons_none (Instruction.marked?_eq_none hentry)]
      simp [List.filter_cons]
      split <;> simp

/-! ## Counted labels -/

namespace Marking

variable {marking : Marking} {stop : Label}

theorem events_label (offset : Label) : (marking.label labels offset).events.toList =
    marking.events.toList ++ labelAt labels offset := by
  unfold label labelAt
  split <;> simp

theorem emitted_label (offset : Label) : (marking.label labels offset).emitted =
    marking.emitted + [offset].countP (labels.contains ·) := by
  unfold label
  split <;> simp_all

theorem events_entry (entry : Nat × Instruction) :
    (marking.entry labels lines entry).events.toList =
      marking.events.toList ++ eventsAt labels lines entry := by
  simp [Marking.entry, events_label, eventsAt]

theorem emitted_entry (entry : Nat × Instruction) :
    (marking.entry labels lines entry).emitted =
      marking.emitted + [entry.1].countP (labels.contains ·) :=
  emitted_label entry.1

/-- The events of a row, and the number of its starts that need a label. -/
theorem foldl_entry (marking : Marking) (instructions : List (Nat × Instruction)) :
    (instructions.foldl (fun marking => marking.entry labels lines) marking).events.toList =
        marking.events.toList ++ instructions.flatMap (eventsAt labels lines) ∧
      (instructions.foldl (fun marking => marking.entry labels lines) marking).emitted =
        marking.emitted + (instructions.map (·.1)).countP (labels.contains ·) := by
  induction instructions generalizing marking with
  | nil => simp
  | cons entry rest ih =>
      obtain ⟨hevents, hemitted⟩ := ih (marking.entry labels lines entry)
      rw [events_entry] at hevents
      rw [emitted_entry] at hemitted
      have hcount : (entry.1 :: rest.map (·.1)).countP (labels.contains ·) =
          [entry.1].countP (labels.contains ·) + (rest.map (·.1)).countP (labels.contains ·) :=
        @List.countP_append _ _ [entry.1] _
      rw [List.foldl_cons, hevents, hemitted, List.flatMap_cons, List.append_assoc, List.map_cons,
        hcount, Nat.add_assoc]
      exact ⟨rfl, rfl⟩

theorem events_row : (row labels lines stop instructions).events.toList =
    instructions.flatMap (eventsAt labels lines) ++ labelAt labels stop := by
  unfold row
  rw [events_label, (foldl_entry {} instructions).1]
  rfl

theorem emitted_row : (row labels lines stop instructions).emitted =
    (instructions.map (·.1) ++ [stop]).countP (labels.contains ·) := by
  unfold row
  rw [emitted_label, (foldl_entry {} instructions).2, List.countP_append, Nat.zero_add]

end Marking

/-- Places without repetition have all labels of a set if as many of them as the set has items
have one. -/
theorem countP_eq_size_iff {starts : List Nat} (hstarts : starts.Nodup) :
    starts.countP (labels.contains ·) = labels.size ↔
      ∀ label, labels.contains label = true → label ∈ starts := by
  have hlabels : labels.toList.Nodup :=
    (Std.TreeSet.ordered_toList).imp fun hlt heq => by simp [heq] at hlt
  have hplaced : (starts.filter (labels.contains ·)).Nodup := hstarts.filter _
  have hmem (label : Nat) : label ∈ labels.toList ↔ labels.contains label = true := by simp
  have hsub : (starts.filter (labels.contains ·)).Subperm labels.toList :=
    hplaced.subperm fun label hlabel => (hmem label).2 (List.mem_filter.1 hlabel).2
  rw [List.countP_eq_length_filter, ← Std.TreeSet.length_toList]
  constructor
  · intro hcount label hlabel
    have hperm := hsub.perm_of_length_le (Nat.le_of_eq hcount.symm)
    exact (List.mem_filter.1 (hperm.mem_iff.2 ((hmem label).2 hlabel))).1
  · intro hall
    refine Nat.le_antisymm hsub.length_le (List.Subperm.length_le (hlabels.subperm ?_))
    intro label hlabel
    have hcontains := (hmem label).1 hlabel
    exact List.mem_filter.2 ⟨hall label hcontains, hcontains⟩

/-- The stream of a body, with each label looked up among the boundaries. -/
def checkedStream (body : MethodBody) (pool : Pool) : Except Fault (List Instruction) := do
  let instructions ← Instruction.readAll pool body.code
  let boundaries := body.boundaries instructions
  match (body.labels instructions).toList.find? (!boundaries.contains ·) with
  | some stray => throw (.malformed (.notBoundary stray))
  | none => return body.events instructions

theorem find?_eq_none_iff :
    (body.labels instructions).toList.find? (!(body.boundaries instructions).contains ·) = none ↔
      body.Bounded instructions := by
  simp [Bounded, List.find?_eq_none]

/-- The label that was not emitted is the one that has no place to stand. -/
theorem stray?_eq (hreal : ∀ entry ∈ instructions, entry.2.isPseudo = false) {marking : Marking}
    (hevents : marking.events.toList = body.events instructions) :
    marking.stray? (body.labels instructions) =
      (body.labels instructions).toList.find? (!(body.boundaries instructions).contains ·) := by
  unfold Marking.stray?
  rw [hevents, marked_events hreal]
  refine List.find?_congr fun label hlabel => congrArg (!·) ?_
  have hcontains : (body.labels instructions).contains label = true := by simpa using hlabel
  rw [Bool.eq_iff_iff, boundaries_contains_iff, Std.TreeSet.contains_ofList, List.contains_iff_mem,
    List.mem_filter, and_iff_left hcontains]
  simp [or_comm]

/-- To count the labels is to look up each of them. -/
theorem stream_eq_checkedStream (body : MethodBody) (pool : Pool) :
    body.stream pool = body.checkedStream pool := by
  unfold stream checkedStream
  cases hread : Instruction.readAll pool body.code with
  | error fault => rfl
  | ok instructions =>
      have htiles := Instruction.readAll_eq_ok_iff.1 hread
      have hstarts := htiles.starts_lt_length.imp Nat.ne_of_lt
      have hevents : (Marking.row (body.labels instructions) body.linesByOffset body.code.length
          instructions).events.toList = body.events instructions := Marking.events_row
      have hstray := stray?_eq htiles.not_pseudo hevents
      have hcount := @countP_eq_size_iff (body.labels instructions) _ hstarts
      rw [← bounded_iff_mem_starts, ← find?_eq_none_iff] at hcount
      simp only [bind, Except.bind, hevents, hstray, Marking.emitted_row]
      split
      · rename_i heq
        rw [hcount.1 heq]
      · rename_i hne
        rw [hcount] at hne
        obtain ⟨stray, hfound⟩ := Option.ne_none_iff_exists'.1 hne
        rw [hfound]
        rfl

theorem stream_eq_ok_iff {stream : List Instruction} :
    body.stream pool = .ok stream ↔ ∃ instructions,
      Instruction.Tiles pool body.code.length 0 instructions body.code ∧
        body.Bounded instructions ∧ stream = body.events instructions := by
  rw [stream_eq_checkedStream]
  unfold MethodBody.checkedStream
  simp only [bind_eq_ok_iff, Instruction.readAll_eq_ok_iff]
  refine exists_congr fun instructions => and_congr_right fun _ => ?_
  split
  · rename_i stray hstray
    have hnot : ¬ body.Bounded instructions := by
      rw [← find?_eq_none_iff, hstray]
      exact Option.some_ne_none stray
    simp only [throw_ne_ok, hnot, false_and]
  · rename_i hnone
    have hbound := find?_eq_none_iff.1 hnone
    simp only [pure_eq_ok_iff, hbound, true_and]

end MethodBody

end CallProbe
