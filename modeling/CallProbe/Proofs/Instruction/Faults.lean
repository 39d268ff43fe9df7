import CallProbe.Proofs.Instruction.RoundTrip

/-!
# How encoding can fail

A stream whose labels are placed once and whose operands fit is refused only where the
class file itself ends: the pool, a text, the code array or a short branch is full.
-/

namespace CallProbe

open Outcome

/-- The faults of something that has outgrown the class file. -/
inductive Fault.Limit : Fault → Prop where
  | pool : Limit .constantPoolOverflow
  | text {bytes : Nat} (h : maxTextLength < bytes) : Limit (.malformed (.utf8TooLong bytes))
  | code : Limit (.malformed .codeExceedsLimit)
  | branch {source target : Nat} (h : ¬ ReachesShort source target) :
      Limit (.branchOverflow source target)

/-! ## Edits of a pool -/

namespace Pool

/-- The faults that an edit can end with, whatever pool it starts from. -/
def Edit.FailsBy {α : Type} (edit : Edit α) (cause : Fault → Prop) : Prop :=
  ∀ pool left fault, edit pool = (.error fault, left) → cause fault

variable {α β : Type} {cause : Fault → Prop}

theorem Edit.FailsBy.pure (a : α) : Edit.FailsBy (Pure.pure a) cause := by
  intro pool left fault h
  cases h

theorem Edit.FailsBy.lift {result : Except Fault α}
    (h : ∀ fault, result = .error fault → cause fault) :
    Edit.FailsBy (liftM result : Edit α) cause := by
  intro pool left fault hfail
  cases hfail
  exact h fault rfl

/-- The second edit runs only on what the first one can yield. -/
theorem Edit.FailsBy.bind {edit : Edit α} {next : α → Edit β} (h : edit.FailsBy cause)
    (hnext : ∀ {pool left : Pool} {a : α}, edit pool = (.ok a, left) → (next a).FailsBy cause) :
    (edit >>= next).FailsBy cause := by
  intro pool left fault hfail
  rw [Edit.bind_apply] at hfail
  rcases hedit : edit pool with ⟨outcome, middle⟩
  cases outcome with
  | error first =>
      rw [hedit] at hfail
      cases hfail
      exact h _ _ _ hedit
  | ok a =>
      rw [hedit] at hfail
      exact hnext hedit _ _ _ hfail

theorem add_fails (constant : Constant) : (add constant).FailsBy Fault.Limit := by
  intro pool left fault h
  unfold add at h
  split at h
  · cases h
  dsimp only at h
  split at h
  · rename_i hlong
    cases h
    exact .text hlong
  split at h
  · cases h
    exact .pool
  · cases h

theorem Addition.edit_fails (addition : Addition) : addition.edit.FailsBy Fault.Limit := by
  refine addition.edit_induction (P := fun edit => edit.FailsBy Fault.Limit) ?_ ?_
  · intro c _
    exact add_fails c
  · intro edit next h hnext
    exact h.bind fun _ => hnext _

end Pool

theorem Instruction.lower_fails (instruction : Instruction) :
    instruction.lower.FailsBy Fault.Limit := by
  cases instruction with
  | loadString text => exact (Pool.Addition.string text).edit_fails
  | invoke call =>
      unfold lower
      dsimp only
      split
      · exact Pool.Edit.FailsBy.pure _
      · exact (Pool.Addition.methodRef call.member).edit_fails
  | _ => exact Pool.Edit.FailsBy.pure _

/-! ## Layouts -/

namespace Layout

variable {layout : Layout}

theorem place_fails {instruction : Instruction}
    (hfresh : ∀ label, instruction.marked? = some label → layout.labels.contains label = false) :
    (layout.place instruction).FailsBy Fault.Limit := by
  have hlabels : ∀ fault, layout.labelsWith instruction = .error fault → fault.Limit := by
    intro fault h
    cases instruction with
    | label label =>
        have hnew := hfresh label rfl
        simp [labelsWith, hnew] at h
    | _ => cases h
  refine instruction.lower_fails.bind fun _ => (Pool.Edit.FailsBy.lift hlabels).bind fun _ => ?_
  dsimp only
  split
  · intro pool left fault h
    cases h
    exact .code
  · exact Pool.Edit.FailsBy.pure _

/-- Laying out events with different labels. -/
theorem foldlM_place_fails {stream : List Instruction}
    (hnodup : (stream.filterMap Instruction.marked?).Nodup)
    (hfresh : ∀ label ∈ stream.filterMap Instruction.marked?,
      layout.labels.contains label = false) :
    (stream.foldlM place layout).FailsBy Fault.Limit := by
  induction stream generalizing layout with
  | nil => exact Pool.Edit.FailsBy.pure _
  | cons instruction stream ih =>
      rw [List.foldlM_cons]
      have hhead : ∀ label, instruction.marked? = some label →
          layout.labels.contains label = false := by
        intro label hmarked
        exact hfresh label (by simp [hmarked])
      have hsub : (stream.filterMap Instruction.marked?).Sublist
          ((instruction :: stream).filterMap Instruction.marked?) :=
        (List.sublist_cons_self instruction stream).filterMap _
      refine (place_fails hhead).bind fun hplace => ih (hnodup.sublist hsub) ?_
      obtain ⟨placement, rfl, -, -, rfl⟩ := place_eq_ok_iff.1 hplace
      intro label hlabel
      rw [Bool.eq_false_iff]
      intro hknown
      rcases contains_add_iff.1 hknown with hmarked | hold
      · rw [List.filterMap_cons_some hmarked] at hnodup
        exact (List.nodup_cons.1 hnodup).1 hlabel
      · rw [hfresh label (hsub.subset hlabel)] at hold
        cases hold

end Layout

/-! ## Emission -/

section Distances

variable {labels : Std.TreeMap Nat Nat} {position : Nat}

theorem placeOf_malformed {label : Label} {fault : Fault}
    (h : placeOf labels label = .error fault) : ∃ defect, fault = .malformed defect := by
  unfold placeOf at h
  split at h
  · cases h
  · cases h
    exact ⟨_, rfl⟩

theorem longDistance_malformed {target : Label} {fault : Fault}
    (h : longDistance labels position target = .error fault) :
    ∃ defect, fault = .malformed defect := by
  rcases bind_eq_error_iff.1 h with hplace | ⟨_, -, hpure⟩
  · exact placeOf_malformed hplace
  · cases hpure

theorem shortDistance_eq_branchOverflow_iff {target : Label} {source place : Nat} :
    shortDistance labels position target = .error (.branchOverflow source place) ↔
      labels.contains target = true ∧ ¬ ReachesShort position (newPlace labels target) ∧
        source = position ∧ place = newPlace labels target := by
  unfold shortDistance
  cases hplace : placeOf labels target with
  | error cause =>
      obtain ⟨defect, rfl⟩ := placeOf_malformed hplace
      have hunplaced : labels.contains target ≠ true := by
        intro hplaced
        rw [placeOf_eq_ok_iff.2 ⟨hplaced, rfl⟩] at hplace
        cases hplace
      simp [bind, Except.bind, hunplaced]
  | ok found =>
      obtain ⟨hplaced, rfl⟩ := placeOf_eq_ok_iff.1 hplace
      simp only [bind, Except.bind]
      split
      · rename_i hwithin
        have hreach : ReachesShort position (newPlace labels target) := hwithin
        simp [hreach]
      · rename_i hbeyond
        have hfar : ¬ ReachesShort position (newPlace labels target) := hbeyond
        simp [hplaced, hfar, eq_comm]

end Distances

namespace Instruction

/-- The operands fit the width they are written with, however far the branches lead. -/
def OperandsFit : Instruction → Prop
  | push opcode value => opcode = Opcode.bipush → -128 ≤ value.toInt ∧ value.toInt ≤ 127
  | slot _ index wide => wide = false → index.toNat ≤ 255
  | increment index delta wide =>
    wide = false → index.toNat ≤ 255 ∧ -128 ≤ delta.toInt ∧ delta.toInt ≤ 127
  | constant opcode index => opcode = Opcode.ldc → index.toNat ≤ 255
  | invoke call => call.kind = .interface → 0 < call.interfaceCount ∧ call.interfaceCount ≤ 255
  | _ => True

variable {labels : Std.TreeMap Nat Nat} {position : Nat} {instruction : Instruction}

theorem InRange.operandsFit {size offset : Nat} (h : instruction.InRange size offset) :
    instruction.OperandsFit := by
  cases instruction with
  | push opcode value => exact h
  | slot opcode index wide => exact h
  | increment index delta wide => exact h
  | constant opcode index => exact h
  | invoke call => exact h.2
  | _ => trivial

/-- A short branch that does not reach its target is all that can go wrong. -/
theorem bytes_fails {index : UInt16} {fault : Fault}
    (hplaced : ∀ target ∈ instruction.targets, labels.contains target = true)
    (hfits : instruction.OperandsFit)
    (h : instruction.bytes labels position position index = .error fault) : fault.Limit := by
  have hnot : ¬ instruction.Encodable labels position := by
    intro hencodable
    rw [bytes_eq_ok_iff.2 ⟨hencodable, rfl⟩] at h
    cases h
  cases instruction with
  | jump opcode target =>
      have htarget := hplaced target List.mem_cons_self
      have hshort : Opcode.isWideBranch opcode = false ∧
          ¬ ReachesShort position (newPlace labels target) := by
        simpa [Encodable, targets, Std.TreeMap.contains_iff_mem.1 htarget] using hnot
      have hoverflow : shortDistance labels position target =
          .error (.branchOverflow position (newPlace labels target)) :=
        shortDistance_eq_branchOverflow_iff.2 ⟨htarget, hshort.2, rfl, rfl⟩
      simp only [bytes, hshort.1, Bool.false_eq_true, if_false, hoverflow] at h
      cases h
      exact .branch hshort.2
  | _ => exact absurd ⟨hplaced, hfits⟩ hnot

end Instruction

theorem Placement.emit_eq_error_iff {labels : Std.TreeMap Nat Nat} {placement : Placement}
    {written : Array UInt8} (h : written.size = placement.position) {fault : Fault} :
    placement.emit labels written = .error fault ↔
      placement.instruction.bytes labels placement.position placement.position placement.index =
        .error fault := by
  unfold emit
  rw [h]
  cases placement.instruction.bytes labels placement.position placement.position
      placement.index with
  | error cause => simp [bind, Except.bind]
  | ok bytes => simp [bind, Except.bind, pure, Except.pure]

namespace Layout

variable {labels : Std.TreeMap Nat Nat}

/-- Emission ends with the fault of the first event that cannot be written. -/
theorem foldlM_emit_eq_error_iff {placements : List Placement} {start stop : Nat}
    (h : Consecutive start placements stop) {written : Array UInt8}
    (hstart : written.size = start) {fault : Fault} :
    placements.foldlM (Placement.emit labels) written = .error fault ↔
      ∃ front placement back, placements = front ++ placement :: back ∧
        (∀ earlier ∈ front, earlier.Encodable labels) ∧
        placement.instruction.bytes labels placement.position placement.position
          placement.index = .error fault := by
  induction h generalizing written with
  | nil =>
      constructor
      · intro hfail
        cases hfail
      · intro hfail
        rcases hfail with ⟨front, placement, back, hsplit, -⟩
        simp at hsplit
  | @cons stop placement rest tail ih =>
      rw [List.foldlM_cons]
      cases hemit : placement.emit labels written with
      | error first =>
          have hbytes := (Placement.emit_eq_error_iff hstart).1 hemit
          constructor
          · intro hfail
            cases hfail
            exact ⟨[], placement, rest, rfl, by simp, hbytes⟩
          · intro hfail
            rcases hfail with ⟨front, other, back, hsplit, hfront, hother⟩
            cases front with
            | nil =>
                obtain ⟨rfl, -⟩ := List.cons.inj hsplit
                rw [hbytes] at hother
                cases hother
                rfl
            | cons head front =>
                obtain ⟨rfl, -⟩ := List.cons.inj hsplit
                have hencodable := hfront placement List.mem_cons_self
                rw [Instruction.bytes_eq_ok_iff.2 ⟨hencodable, rfl⟩] at hbytes
                cases hbytes
      | ok middle =>
          obtain ⟨hencodable, hmiddle⟩ := (Placement.emit_eq_ok_iff hstart).1 hemit
          have hsize : middle.size = placement.position + placement.size := by
            simpa [hstart] using congrArg List.length hmiddle
          refine (ih hsize).trans ?_
          constructor
          · intro hfail
            rcases hfail with ⟨front, other, back, rfl, hfront, hother⟩
            exact ⟨placement :: front, other, back, rfl,
              List.forall_mem_cons.2 ⟨hencodable, hfront⟩, hother⟩
          · intro hfail
            rcases hfail with ⟨front, other, back, hsplit, hfront, hother⟩
            cases front with
            | nil =>
                obtain ⟨rfl, -⟩ := List.cons.inj hsplit
                rw [Instruction.bytes_eq_ok_iff.2 ⟨hencodable, rfl⟩] at hother
                cases hother
            | cons head front =>
                obtain ⟨-, rfl⟩ := List.cons.inj hsplit
                exact ⟨front, other, back, rfl, (List.forall_mem_cons.1 hfront).2, hother⟩

theorem foldlM_emit_fails {placements : List Placement} {start stop : Nat}
    (h : Consecutive start placements stop)
    (hfits : ∀ placement ∈ placements, placement.instruction.OperandsFit ∧
      ∀ target ∈ placement.instruction.targets, labels.contains target = true)
    {written : Array UInt8} (hstart : written.size = start) {fault : Fault}
    (hfail : placements.foldlM (Placement.emit labels) written = .error fault) : fault.Limit := by
  rcases (foldlM_emit_eq_error_iff h hstart).1 hfail with ⟨_, placement, _, rfl, -, hbytes⟩
  have hplacement := hfits placement (by simp)
  exact Instruction.bytes_fails hplacement.2 hplacement.1 hbytes

theorem Lays.emit_eq_error_iff {placements : List Placement} {layout : Layout} {pool left : Pool}
    (h : Lays {} pool placements layout left) {fault : Fault} :
    layout.emit = .error fault ↔
      placements.foldlM (Placement.emit layout.labels) #[] = .error fault := by
  have hplaced : layout.placed.reverse = placements := by simp [h.placed]
  unfold emit
  rw [hplaced]
  cases placements.foldlM (Placement.emit layout.labels) #[] with
  | error cause => simp [bind, Except.bind]
  | ok written => simp [bind, Except.bind, pure, Except.pure]

end Layout

/-- Encoding a stream that marks every label once and all those it leads to. -/
theorem encodeStream_fails {stream : List Instruction}
    (hnodup : (stream.filterMap Instruction.marked?).Nodup)
    (hmarked : ∀ instruction ∈ stream, ∀ target ∈ instruction.targets, .label target ∈ stream)
    (hfits : ∀ instruction ∈ stream, instruction.OperandsFit) :
    (encodeStream stream).FailsBy Fault.Limit := by
  have hlayout : (Layout.ofStream stream).FailsBy Fault.Limit :=
    Layout.foldlM_place_fails hnodup fun label _ => by simp
  refine hlayout.bind fun hok => ?_
  obtain ⟨placements, rfl, hlays⟩ := Layout.ofStream_eq_ok_iff.1 hok
  refine (Pool.Edit.FailsBy.lift fun fault hemit => ?_).bind fun _ => Pool.Edit.FailsBy.pure _
  refine Layout.foldlM_emit_fails hlays.consecutive ?_ rfl (hlays.emit_eq_error_iff.1 hemit)
  intro placement hplacement
  have hmem := List.mem_map_of_mem (f := Placement.instruction) hplacement
  refine ⟨hfits _ hmem, fun target htarget => ?_⟩
  obtain ⟨mark, hmark, hlabel⟩ := List.mem_map.1 (hmarked _ hmem target htarget)
  exact (hlays.newPlace_mark hmark hlabel).1

end CallProbe
