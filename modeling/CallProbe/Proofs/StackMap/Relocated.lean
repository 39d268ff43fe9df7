import CallProbe.Proofs.MethodBody.Covering
import CallProbe.Proofs.StackMap.Compaction
import CallProbe.Proofs.StackMap.Growth

/-!
# Frames survive a relocation

A stack map that was read follows every relocation that has a place for its offsets and keeps
the order of its frames. What is written of it then is read as the same frames at their new
places, wherever the new distances lie on the two sides of the limit of the one-byte forms.
-/

namespace CallProbe

open Reader Cursor

variable {relocation : Relocation} {c d : Cursor}

/-! ## Tags with a distance -/

/-- Close to the frame before it, a frame that keeps the locals is stored behind a tag that tells
the kind and the distance. -/
def FrameKind.CarriedByTag (delta : UInt16) (stored : Bytes) : FrameKind → Prop
  | same => delta.toNat ≤ 63 → ∃ tag : UInt8, tag.toNat = delta.toNat ∧ stored = [tag]
  | sameWithItem item =>
    delta.toNat ≤ 63 → ∃ tag : UInt8, tag.toNat = 64 + delta.toNat ∧ stored = tag :: item.encode
  | _ => True

theorem FrameKind.carriedByTag_encode (delta : UInt16) (kind : FrameKind) :
    kind.CarriedByTag delta (kind.encode delta) := by
  cases kind with
  | same =>
      intro hnear
      have htag : (UInt8.ofNat delta.toNat).toNat = delta.toNat :=
        UInt8.toNat_ofNat_of_lt' (show _ < 256 by omega)
      exact ⟨_, htag, if_pos hnear⟩
  | sameWithItem item =>
      intro hnear
      have htag : (UInt8.ofNat (64 + delta.toNat)).toNat = 64 + delta.toNat :=
        UInt8.toNat_ofNat_of_lt' (show _ < 256 by omega)
      exact ⟨_, htag, if_pos hnear⟩
  | _ => trivial

namespace StackMap

variable {previous : Option UInt16} {frames : StackMap}

/-- Stored forms of frames, one for each, with the distances in the tags wherever they fit. -/
def CarriedByTags (frames : StackMap) (slices : List Bytes) : Prop :=
  List.Forall₂
    (fun (entry : Option UInt16 × Frame) slice => ∃ delta,
      Frame.delta? entry.1 entry.2.offset = some delta ∧ entry.2.kind.CarriedByTag delta slice)
    (frames.previousOffsets.zip frames) slices

theorem Rising.carriedByTags (h : Rising none frames) :
    frames.CarriedByTags (rows none frames) := by
  unfold CarriedByTags previousOffsets
  generalize none = previous at h
  induction frames generalizing previous with
  | nil => exact .nil
  | cons frame rest ih =>
      rcases h with ⟨hbehind, hrest⟩
      have hdelta := Frame.delta?_eq_some_iff.2 ⟨hbehind, rfl⟩
      exact .cons ⟨_, hdelta, FrameKind.carriedByTag_encode _ _⟩ (ih _ hrest)

theorem length_rows (previous : Option UInt16) (frames : StackMap) :
    (rows previous frames).length = frames.length := by
  induction frames generalizing previous with
  | nil => rfl
  | cons frame rest ih => exact congrArg Nat.succ (ih _)

theorem passed_yields_rows (hstorable : ∀ frame ∈ frames, frame.kind.Storable)
    (h : c.Passes (rows previous frames).flatten d) :
    FrameKind.reader.passed.Yields c (rows previous frames) d := by
  induction frames generalizing previous c with
  | nil => exact passes_nil_iff.1 h
  | cons frame rest ih =>
      obtain ⟨hkind, hkinds⟩ := List.forall_mem_cons.1 hstorable
      rw [rows, List.flatten_cons] at h
      obtain ⟨m, hrow, hrows⟩ := passes_append_iff.1 h
      have hread := FrameKind.reader_eq_ok_iff.2 ⟨hkind, .inl hrow⟩
      exact ⟨m, passed_of_passes hread hrow, ih hkinds hrows⟩

/-- What is written of frames are their rows, each of them as the frame it is read as. -/
theorem storedFrames_encode {stored : Bytes} (hstorable : ∀ frame ∈ frames, frame.kind.Storable)
    (h : frames.encode = .ok stored) : storedFrames stored = .ok (rows none frames) := by
  obtain ⟨hcount, -, rfl⟩ := encode_eq_ok_iff.1 h
  obtain ⟨m, hfront, hm⟩ := passes_skip (Cursor.ofBytes _) _ _ rfl
  obtain ⟨d, hrows, -⟩ := passes_skip m (rows none frames).flatten [] (by simpa using hm)
  have hlength := length_rows none frames
  exact storedFrames_of_yields (hlength ▸ hcount) (hlength ▸ hfront)
    (passed_yields_rows hstorable hrows)

/-! ## Moving frames that were read -/

theorem exists_moved (hcovers : ∀ offset ∈ frames.offsets, relocation.Covers offset.toNat) :
    ∃ moved, List.Forall₂ (Frame.Moved relocation) frames moved := by
  apply exists_forall₂_iff.2
  intro frame hframe
  apply Frame.exists_moved_iff.2
  intro offset hoffset
  exact hcovers offset (List.mem_flatMap_of_mem hframe hoffset)

/-- Frames that were read can be moved if all their offsets have places and their own keep their
order, and what is written of the moved frames gives them back: the same frames in the same order,
each offset at its place. A frame of the two common kinds has its distance in its tag if it is at
most 63, whatever form it had before. -/
theorem relocate_survives {data : Bytes} (hread : StackMap.ofBytes data = .ok frames)
    (hcovers : ∀ offset ∈ frames.offsets, relocation.Covers offset.toNat)
    (hordered : relocation.OrderedOn (frames.map (·.offset))) :
    ∃ moved stored slices, (frames.relocate relocation).complete = .ok moved ∧
      moved.encode = .ok stored ∧ StackMap.ofBytes stored = .ok moved ∧
      List.Forall₂ (Frame.Moved relocation) frames moved ∧
      storedFrames stored = .ok slices ∧ moved.CarriedByTags slices := by
  obtain ⟨hrising, hstorable⟩ := storable_of_ofBytes hread
  obtain ⟨hcount, -⟩ := ofBytes_eq_ok_iff.1 hread
  obtain ⟨moved, hmoved⟩ := exists_moved hcovers
  have hrising' : Rising none moved := hrising.moved hmoved hordered .none
  have hstorable' : ∀ frame ∈ moved, frame.kind.Storable :=
    forall_mem_of_forall₂ hmoved (fun h => h.kind.storable) hstorable
  have hencode := encode_eq_ok_iff.2 ⟨hmoved.length_eq ▸ hcount, hrising', rfl⟩
  exact ⟨moved, _, _, StackMap.relocate_eq_ok_iff.2 hmoved, hencode,
    ofBytes_encode hstorable' hencode, hmoved, storedFrames_encode hstorable' hencode,
    hrising'.carriedByTags⟩

/-! ## Frames that move across the limit -/

/-- Three frames; the second one is further away than a tag can tell, the third one is not. -/
def threeFrames : StackMap :=
  [⟨10, .same⟩, ⟨80, .same⟩, ⟨140, .sameWithItem (.uninitialized 10)⟩]

/-- Moves the frames to 20, 83 and 150. -/
def shifted : Relocation := fun offset =>
  if offset ≤ 10 then some (offset + 10) else if offset ≤ 80 then some (offset + 3)
  else some (offset + 10)

theorem threeFrames_survive :
    StackMap.ofBytes [0, 3, 10, 251, 0, 69, 123, 8, 0, 10] = .ok threeFrames ∧
      (∀ offset ∈ threeFrames.offsets, shifted.Covers offset.toNat) ∧
      shifted.OrderedOn (threeFrames.map (·.offset)) ∧
      ∃ moved stored slices, (threeFrames.relocate shifted).complete = .ok moved ∧
        moved = [⟨20, .same⟩, ⟨83, .same⟩, ⟨150, .sameWithItem (.uninitialized 20)⟩] ∧
        moved.encode = .ok stored ∧ StackMap.ofBytes stored = .ok moved ∧
        List.Forall₂ (Frame.Moved shifted) threeFrames moved ∧
        storedFrames stored = .ok slices ∧ moved.CarriedByTags slices := by
  have hread : StackMap.ofBytes [0, 3, 10, 251, 0, 69, 123, 8, 0, 10] = .ok threeFrames := rfl
  have hcovers : ∀ offset ∈ threeFrames.offsets, shifted.Covers offset.toNat := by
    intro offset hoffset
    have hcases : offset = 10 ∨ offset = 80 ∨ offset = 140 := by
      simpa [threeFrames, offsets, Frame.offsets, FrameKind.types, VerificationType.offset?,
        or_comm, or_left_comm] using hoffset
    rcases hcases with rfl | rfl | rfl <;> exact ⟨by decide, _, rfl, by decide⟩
  have hordered : shifted.OrderedOn (threeFrames.map (·.offset)) := by
    intro a b p q ha hb hp hq hlt
    have hplaces : ∀ x ∈ threeFrames.map (·.offset), x = 10 ∨ x = 80 ∨ x = 140 := by
      simp [threeFrames]
    rcases hplaces a ha with rfl | rfl | rfl <;> rcases hplaces b hb with rfl | rfl | rfl <;>
      cases hp <;> cases hq <;> first | decide | exact absurd hlt (by decide)
  obtain ⟨moved, stored, slices, hmoved, hrest⟩ := relocate_survives hread hcovers hordered
  have hsame : (threeFrames.relocate shifted).complete =
      .ok [⟨20, .same⟩, ⟨83, .same⟩, ⟨150, .sameWithItem (.uninitialized 20)⟩] := rfl
  rw [hmoved] at hsame
  exact ⟨hread, hcovers, hordered, moved, stored, slices, hmoved, Except.ok.inj hsame, hrest⟩

end StackMap

end CallProbe
