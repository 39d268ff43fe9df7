import CallProbe.Proofs.MethodBody.Moving

/-!
# Which bodies can be moved

Moving asks for a place of every offset that is referred to, and for nothing else. Level
by level, something can be moved if and only if all its offsets are covered.
-/

namespace CallProbe

/-- Everything in a list has a partner if and only if the list has one. -/
theorem exists_forall₂_iff {α β : Type} {R : α → β → Prop} {items : List α} :
    (∃ results, List.Forall₂ R items results) ↔ ∀ item ∈ items, ∃ result, R item result := by
  induction items with
  | nil => simp
  | cons item rest ih =>
      rw [List.forall_mem_cons, ← ih]
      constructor
      · intro h
        rcases h with ⟨_, hresults⟩
        cases hresults with
        | cons hitem hrest => exact ⟨⟨_, hitem⟩, _, hrest⟩
      · intro h
        rcases h with ⟨⟨_, hitem⟩, _, hrest⟩
        exact ⟨_, .cons hitem hrest⟩

private theorem exists_image_iff {α β : Type} {p : α → Prop} {f : α → β} :
    (∃ b, ∃ a, p a ∧ b = f a) ↔ ∃ a, p a := by
  constructor
  · intro h
    rcases h with ⟨_, a, ha, rfl⟩
    exact ⟨a, ha⟩
  · intro h
    rcases h with ⟨a, ha⟩
    exact ⟨_, a, ha, rfl⟩

/-- An offset that has 16 bits, and so has its place. -/
def Relocation.Covers (relocation : Relocation) (offset : Nat) : Prop :=
  offset ≤ maxCodeLength ∧ ∃ place, relocation offset = some place ∧ place ≤ maxCodeLength

variable {relocation : Relocation}

/-- The 16-bit form of a place. -/
theorem Relocation.exists_place_iff {offset : Nat} :
    (∃ new : UInt16, relocation offset = some new.toNat) ↔
      ∃ place, relocation offset = some place ∧ place ≤ maxCodeLength := by
  constructor
  · intro h
    rcases h with ⟨new, hnew⟩
    exact ⟨_, hnew, Nat.le_of_lt_succ new.toNat_lt⟩
  · intro h
    rcases h with ⟨place, hplace, hle⟩
    refine ⟨UInt16.ofNat place, ?_⟩
    rw [UInt16.toNat_ofNat_of_lt' (Nat.lt_succ_of_le hle)]
    exact hplace

theorem Relocation.exists_moves_iff {old : UInt16} :
    (∃ new, relocation.Moves old new) ↔ relocation.Covers old.toNat := by
  have hold : old.toNat ≤ maxCodeLength := Nat.le_of_lt_succ old.toNat_lt
  rw [Covers, and_iff_right hold]
  exact exists_place_iff

/-! ## Stack maps -/

theorem VerificationType.exists_moved_iff {type : VerificationType} :
    (∃ moved, type.Moved relocation moved) ↔
      ∀ offset ∈ type.offset?, relocation.Covers offset.toNat := by
  cases type with
  | uninitialized offset =>
      simp only [Moved, offset?, Option.mem_some_iff, forall_eq', ← Relocation.exists_moves_iff]
      exact exists_image_iff
  | _ => simp [Moved, offset?]

theorem FrameKind.exists_moved_iff {kind : FrameKind} :
    (∃ moved, kind.Moved relocation moved) ↔
      ∀ type ∈ kind.types, ∃ moved, type.Moved relocation moved := by
  cases kind with
  | same => simp [Moved, types]
  | chop count => simp [Moved, types]
  | sameWithItem item =>
      simp only [Moved, types, List.forall_mem_singleton]
      exact exists_image_iff
  | append locals =>
      simp only [Moved, types, ← exists_forall₂_iff]
      exact exists_image_iff
  | full locals stack =>
      simp only [Moved, types, List.forall_mem_append, ← exists_forall₂_iff]
      constructor
      · intro h
        rcases h with ⟨_, moved, moved', hlocals, hstack, rfl⟩
        exact ⟨⟨moved, hlocals⟩, moved', hstack⟩
      · intro h
        rcases h with ⟨⟨moved, hlocals⟩, moved', hstack⟩
        exact ⟨_, moved, moved', hlocals, hstack, rfl⟩

theorem Frame.exists_moved_iff {frame : Frame} :
    (∃ moved, frame.Moved relocation moved) ↔
      ∀ offset ∈ frame.offsets, relocation.Covers offset.toNat := by
  have hkind : (∃ moved, frame.kind.Moved relocation moved) ↔
      ∀ offset ∈ frame.kind.types.filterMap VerificationType.offset?,
        relocation.Covers offset.toNat := by
    simp only [FrameKind.exists_moved_iff, VerificationType.exists_moved_iff, List.mem_filterMap,
      forall_exists_index, and_imp, Option.mem_def]
    exact ⟨fun h offset type htype hoffset => h type htype offset hoffset,
      fun h type htype offset hoffset => h offset type htype hoffset⟩
  rw [offsets, List.forall_mem_cons, ← hkind, ← Relocation.exists_moves_iff]
  constructor
  · intro h
    rcases h with ⟨moved, hmoved⟩
    exact ⟨⟨_, hmoved.offset⟩, _, hmoved.kind⟩
  · intro h
    rcases h with ⟨⟨offset, hoffset⟩, kind, hmoved⟩
    exact ⟨{ offset, kind }, hoffset, hmoved⟩

/-! ## Bodies -/

theorem Handler.exists_moved_iff {handler : Handler} :
    (∃ moved, handler.Moved relocation moved) ↔
      ∀ offset ∈ handler.offsets, relocation.Covers offset := by
  simp only [offsets, List.forall_mem_cons, List.not_mem_nil, false_implies, implies_true, and_true,
    ← Relocation.exists_moves_iff]
  constructor
  · intro h
    rcases h with ⟨moved, hmoved⟩
    exact ⟨⟨_, hmoved.start⟩, ⟨_, hmoved.stop⟩, _, hmoved.target⟩
  · intro h
    rcases h with ⟨⟨start, hstart⟩, ⟨stop, hstop⟩, target, htarget⟩
    exact ⟨{ handler with start, stop, target }, hstart, hstop, htarget, rfl⟩

theorem LineMark.exists_moved_iff {mark : LineMark} :
    (∃ moved, mark.Moved relocation moved) ↔ relocation.Covers mark.start.toNat := by
  rw [← Relocation.exists_moves_iff]
  constructor
  · intro h
    rcases h with ⟨moved, hmoved⟩
    exact ⟨_, hmoved.start⟩
  · intro h
    rcases h with ⟨start, hstart⟩
    exact ⟨{ mark with start }, hstart, rfl⟩

theorem VariableRange.exists_moved_iff {range : VariableRange} :
    (∃ moved, range.Moved relocation moved) ↔
      ∀ offset ∈ range.offsets, relocation.Covers offset := by
  simp only [offsets, List.forall_mem_cons, List.not_mem_nil, false_implies, implies_true, and_true,
    ← Relocation.exists_moves_iff]
  rw [Relocation.Covers, ← Relocation.exists_place_iff]
  constructor
  · intro h
    rcases h with ⟨moved, hmoved⟩
    obtain ⟨stop, hstop, -⟩ := hmoved.stop
    exact ⟨⟨_, hmoved.start⟩, hmoved.stop_le, stop, hstop⟩
  · intro h
    rcases h with ⟨⟨start, hstart⟩, hle, stop, hstop⟩
    exact ⟨{ range with start, length := UInt16.ofNat (stop.toNat - start.toNat) }, hle, hstart,
      ⟨stop, hstop, rfl⟩, rfl, rfl, rfl⟩

theorem NestedAttribute.exists_moved_iff {nested : NestedAttribute} :
    (∃ moved, nested.Moved relocation moved) ↔
      ∀ offset ∈ nested.offsets, relocation.Covers offset := by
  cases nested with
  | lineNumbers name marks =>
      simp only [Moved, offsets, List.forall_mem_map, ← LineMark.exists_moved_iff,
        ← exists_forall₂_iff]
      exact exists_image_iff
  | localVariables table name ranges =>
      simp only [Moved, offsets, List.forall_mem_flatMap, ← VariableRange.exists_moved_iff,
        ← exists_forall₂_iff]
      exact exists_image_iff
  | stackMap name frames =>
      simp only [Moved, offsets, StackMap.offsets, List.forall_mem_map, List.forall_mem_flatMap,
        ← Frame.exists_moved_iff, ← exists_forall₂_iff]
      exact exists_image_iff
  | unknown name data => simp [Moved, offsets]

/-- A body can be moved if and only if every offset it refers to has a place. -/
theorem MethodBody.exists_moved_iff {body : MethodBody} (code : Bytes) :
    (∃ moved, body.Moved relocation code moved) ↔
      ∀ offset ∈ body.offsets, relocation.Covers offset := by
  have hattributes : (∃ moved, List.Forall₂ (NestedAttribute.Moved relocation)
        (body.attributes.filter NestedAttribute.isKnown) moved) ↔
      ∀ offset ∈ body.attributes.flatMap NestedAttribute.offsets, relocation.Covers offset := by
    rw [← NestedAttribute.flatMap_filter_isKnown fun _ _ => rfl]
    simp only [exists_forall₂_iff, NestedAttribute.exists_moved_iff, List.forall_mem_flatMap]
  rw [offsets, List.forall_mem_append, ← hattributes]
  simp only [List.forall_mem_flatMap, ← Handler.exists_moved_iff, ← exists_forall₂_iff]
  constructor
  · intro h
    rcases h with ⟨moved, hmoved⟩
    exact ⟨⟨_, hmoved.handlers⟩, _, hmoved.attributes⟩
  · intro h
    rcases h with ⟨⟨handlers, hhandlers⟩, attributes, hattributes⟩
    exact ⟨{ body with code, handlers, attributes }, rfl, rfl, rfl, hhandlers, hattributes⟩

end CallProbe
