import CallProbe.Proofs.MethodBody.Covering
import CallProbe.Proofs.MethodBody.Ranges

/-!
# When a body can be relocated

The offsets that a body reports are those it needs places for: a relocation goes through if and only
if it covers them all. What it leaves behind is the body around the new code array with every offset
at its place, and as long as no offset overtakes another one, the offsets that the moved body
reports are just these places.
-/

namespace CallProbe.MethodBody

variable {relocation : Relocation} {code : Bytes} {body moved : MethodBody}

/-- Reported are the places of what was reported before. -/
theorem Moved.mem_referencedOffsets_iff (h : body.Moved relocation code moved)
    (hmono : relocation.MonotoneOn body.offsets) {place : Nat} :
    place ∈ moved.referencedOffsets ↔
      ∃ offset ∈ body.referencedOffsets, relocation offset = some place := by
  have hoffsets := h.offsets hmono
  simp only [MethodBody.mem_referencedOffsets_iff]
  constructor
  · exact exists_mem_of_forall₂ hoffsets
  · intro hplace
    rcases hplace with ⟨offset, hoffset, hplace⟩
    rcases exists_mem_of_forall₂ hoffsets.flip hoffset with ⟨other, hother, hsame⟩
    obtain rfl : other = place := Option.some.inj (hsame.symm.trans hplace)
    exact hother

/-- A body is relocated if and only if all offsets that it reports have 16 bits and places of 16
bits. Its attributes of unknown content are gone then, everything else has its offsets moved and is
otherwise the same, and a variable's range reaches from place to place unless its ends have changed
places. Where the places keep the order of the reported offsets, they are what is reported next. -/
theorem relocate_moves_exactly (body : MethodBody) (code : Bytes) (relocation : Relocation) :
    ((∃ moved, (body.relocate code relocation).1.complete = .ok moved) ↔
      ∀ offset ∈ body.referencedOffsets, offset ≤ 65535 ∧
        ∃ place, relocation offset = some place ∧ place ≤ 65535) ∧
    ∀ moved, (body.relocate code relocation).1.complete = .ok moved →
      body.Moved relocation code moved ∧
      List.Forall₂ (fun old new : VariableRange => ∀ start stop,
          relocation old.start.toNat = some start → relocation old.stop = some stop →
          start ≤ stop → new.start.toNat = start ∧ new.stop = stop)
        body.ranges moved.ranges ∧
      (relocation.MonotoneOn body.referencedOffsets.toList → ∀ place,
        place ∈ moved.referencedOffsets ↔
          ∃ offset ∈ body.referencedOffsets, relocation offset = some place) := by
  refine ⟨?_, fun moved hmoved => ?_⟩
  · simp only [relocate_eq_ok_iff, exists_moved_iff, mem_referencedOffsets_iff]
    rfl
  · have hmoved := relocate_eq_ok_iff.1 hmoved
    refine ⟨hmoved, hmoved.ranges.imp fun _ _ hrange _ _ => hrange.spans, fun hmono place => ?_⟩
    apply hmoved.mem_referencedOffsets_iff (hmono.mono fun offset hoffset => ?_)
    exact Std.TreeSet.mem_toList.2 (mem_referencedOffsets_iff.2 hoffset)

/-! ### Room in the middle of a body -/

/-- A body with a handler, a variable and a frame that reach over its middle, and an attribute of
unknown content. -/
def tabledBody : MethodBody where
  maxStack := 2
  maxLocals := 1
  code := [0x2A, 0x57, 0xB1, 0x57, 0xB1]
  handlers := [⟨0, 3, 3, 0⟩]
  attributes := [.unknown 9 [1, 2], .localVariables .types 5 [⟨0, 5, 6, 7, 0⟩],
    .stackMap 8 [⟨3, .full [.uninitialized 1] [.object 4]⟩], .lineNumbers 10 [⟨0, 20⟩, ⟨3, 21⟩]]

/-- Makes room for two bytes behind the second one. -/
def widened : Relocation := fun offset =>
  if offset ≤ 1 then some offset else if offset ≤ 5 then some (offset + 2) else none

theorem tabledBody_moves_exactly :
    (∀ offset ∈ tabledBody.referencedOffsets, offset ≤ 65535 ∧
        ∃ place, widened offset = some place ∧ place ≤ 65535) ∧
      widened.MonotoneOn tabledBody.referencedOffsets.toList ∧
      ∃ moved, (tabledBody.relocate [0x2A, 0x57, 0, 0, 0xB1, 0x57, 0xB1] widened).1.complete =
          .ok moved ∧
        moved.handlers = [⟨0, 5, 5, 0⟩] ∧
        moved.attributes = [.localVariables .types 5 [⟨0, 7, 6, 7, 0⟩],
          .stackMap 8 [⟨5, .full [.uninitialized 1] [.object 4]⟩],
          .lineNumbers 10 [⟨0, 20⟩, ⟨5, 21⟩]] ∧
        tabledBody.Moved widened [0x2A, 0x57, 0, 0, 0xB1, 0x57, 0xB1] moved ∧
        ∀ place, place ∈ moved.referencedOffsets ↔
          ∃ offset ∈ tabledBody.referencedOffsets, widened offset = some place := by
  have hcovers : ∀ offset ∈ tabledBody.referencedOffsets, offset ≤ 65535 ∧
      ∃ place, widened offset = some place ∧ place ≤ 65535 := by
    intro offset hoffset
    have hle : offset ≤ 5 :=
      (by decide : ∀ offset ∈ tabledBody.offsets, offset ≤ 5) offset
        (mem_referencedOffsets_iff.1 hoffset)
    refine ⟨by omega, ?_⟩
    by_cases hfront : offset ≤ 1
    · exact ⟨offset, by simp [widened, hfront], by omega⟩
    · exact ⟨offset + 2, by simp [widened, hfront, hle], by omega⟩
  have hmono : widened.MonotoneOn tabledBody.referencedOffsets.toList := by
    intro a b p q _ _ hle ha hb
    simp only [widened] at ha hb
    split at ha <;> split at hb <;> grind
  obtain ⟨hiff, hrest⟩ :=
    relocate_moves_exactly tabledBody [0x2A, 0x57, 0, 0, 0xB1, 0x57, 0xB1] widened
  obtain ⟨moved, hmoved⟩ := hiff.2 hcovers
  obtain ⟨hsame, -, hreported⟩ := hrest moved hmoved
  refine ⟨hcovers, hmono, moved, hmoved, ?_, ?_, hsame, hreported hmono⟩
  · cases hmoved
    rfl
  · cases hmoved
    rfl

end CallProbe.MethodBody
