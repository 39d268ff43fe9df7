import CallProbe.Proofs.Outcome
import CallProbe.Proofs.StackMap.Storage
import CallProbe.StackMap.Relocation

/-!
# Moving stack maps

A change that may stop half-way is completed exactly if every part of it is. Frames that
have moved are frames of the same kinds, with every offset at its new place.
-/

namespace CallProbe

open Outcome

/-- What holds of all items before a change holds of all items after it. -/
theorem forall_mem_of_forall₂ {α β : Type} {R : α → β → Prop} {p : α → Prop} {q : β → Prop}
    {items : List α} {results : List β} (h : List.Forall₂ R items results)
    (hstep : ∀ {item result}, R item result → p item → q result) (hall : ∀ item ∈ items, p item) :
    ∀ result ∈ results, q result := by
  induction h with
  | nil => simp
  | cons hitem _ ih =>
      obtain ⟨hhead, hrest⟩ := List.forall_mem_cons.1 hall
      exact List.forall_mem_cons.2 ⟨hstep hitem hhead, ih hrest⟩

theorem exists_mem_of_forall₂ {α β : Type} {R : α → β → Prop} {items : List α} {results : List β}
    (h : List.Forall₂ R items results) {result : β} (hresult : result ∈ results) :
    ∃ item ∈ items, R item result := by
  have hstep : ∀ {item result}, R item result → item ∈ items → ∃ item ∈ items, R item result := by
    intro item _ hR hitem
    exact ⟨item, hitem, hR⟩
  exact forall_mem_of_forall₂ h hstep (fun _ hitem => hitem) result hresult

/-! ## Changes that were not stopped -/

namespace Swept

variable {α β : Type} {swept : Swept α}

theorem complete_map_eq_ok_iff {f : α → β} {b : β} :
    (swept.map f).complete = .ok b ↔ ∃ a, swept.complete = .ok a ∧ b = f a := by
  unfold map complete
  cases swept.fault <;> simp [eq_comm]

theorem complete_ofExcept_eq_ok_iff {change : Except Fault α} {install : α → β} {unchanged b : β} :
    (ofExcept change install unchanged).complete = .ok b ↔ ∃ a, change = .ok a ∧ b = install a := by
  cases change <;> simp [ofExcept, complete, eq_comm]

theorem complete_andThen_eq_ok_iff {next : α → Swept α} {b : α} :
    (swept.andThen next).complete = .ok b ↔
      ∃ a, swept.complete = .ok a ∧ (next a).complete = .ok b := by
  unfold andThen complete
  cases hfault : swept.fault <;> simp [hfault]

theorem complete_list_eq_ok_iff {change : α → Swept α} {items results : List α} :
    (list change items).complete = .ok results ↔
      List.Forall₂ (fun item result => (change item).complete = .ok result) items results := by
  suffices h : ∀ done, (listAfter change done items).complete = .ok results ↔
      ∃ rest, results = done.reverse ++ rest ∧
        List.Forall₂ (fun item result => (change item).complete = .ok result) items rest by
    simpa [list] using h []
  induction items with
  | nil =>
      intro done
      simp [listAfter, complete, List.forall₂_nil_left_iff, eq_comm]
  | cons item items ih =>
      intro done
      unfold listAfter
      simp only [List.forall₂_cons_left_iff]
      cases hfault : (change item).fault with
      | some fault => simp [complete, hfault]
      | none =>
          have hitem : (change item).complete = .ok (change item).value := by
            unfold complete
            rw [hfault]
          simp only [ih, hitem, Except.ok.injEq]
          constructor
          · intro h
            rcases h with ⟨rest, rfl, hrest⟩
            exact ⟨_, by simp, _, rest, rfl, hrest, rfl⟩
          · intro h
            rcases h with ⟨_, rfl, _, rest, rfl, hrest, rfl⟩
            exact ⟨rest, by simp, hrest⟩

end Swept

/-! ## Offsets and types -/

/-- `new` is the place of the offset `old`. -/
def Relocation.Moves (relocation : Relocation) (old new : UInt16) : Prop :=
  relocation old.toNat = some new.toNat

/-- Places keep the order of their offsets. -/
def Relocation.Ordered (relocation : Relocation) : Prop :=
  ∀ ⦃a b p q : Nat⦄, relocation a = some p → relocation b = some q → a < b → p < q

/-- The places of the given offsets keep the order of their offsets. -/
def Relocation.OrderedOn (relocation : Relocation) (offsets : List UInt16) : Prop :=
  ∀ ⦃a b : UInt16⦄ ⦃p q : Nat⦄, a ∈ offsets → b ∈ offsets →
    relocation a.toNat = some p → relocation b.toNat = some q → a < b → p < q

variable {relocation : Relocation}

theorem Relocation.Ordered.on (h : relocation.Ordered) (offsets : List UInt16) :
    relocation.OrderedOn offsets := by
  intro a b p q _ _ ha hb hlt
  exact h ha hb (UInt16.lt_iff_toNat_lt.1 hlt)

theorem Relocation.OrderedOn.mono {offsets others : List UInt16} (h : relocation.OrderedOn others)
    (hsub : offsets ⊆ others) : relocation.OrderedOn offsets := by
  intro a b p q ha hb
  exact h (hsub ha) (hsub hb)

theorem Relocation.apply_eq_ok_iff {old new : UInt16} :
    relocation.apply old = .ok new ↔ relocation.Moves old new := by
  unfold apply Moves maxCodeLength
  have hnew : new.toNat < 65536 := new.toNat_lt
  cases relocation old.toNat with
  | none => simp
  | some moved =>
      by_cases hle : moved ≤ 65535
      · have hback : (UInt16.ofNat moved).toNat = moved :=
          UInt16.toNat_ofNat_of_lt' (Nat.lt_succ_of_le hle)
        simp [hle, ← UInt16.toNat_inj, hback]
      · simp only [hle, if_false, reduceCtorEq, Option.some.injEq, false_iff]
        omega

namespace VerificationType

/-- The second type is the first one with its offset moved. -/
def Moved (relocation : Relocation) : VerificationType → VerificationType → Prop
  | uninitialized offset, type =>
    ∃ place, relocation.Moves offset place ∧ type = uninitialized place
  | type, type' => type' = type

theorem relocate_eq_ok_iff {type moved : VerificationType} :
    (type.relocate relocation).complete = .ok moved ↔ type.Moved relocation moved := by
  cases type with
  | uninitialized offset =>
      simp only [relocate, Swept.complete_ofExcept_eq_ok_iff, Relocation.apply_eq_ok_iff, Moved]
  | _ => simp [relocate, Swept.complete, Moved, eq_comm]

theorem relocateAll_eq_ok_iff {types moved : List VerificationType} :
    (relocateAll relocation types).complete = .ok moved ↔
      List.Forall₂ (Moved relocation) types moved := by
  simp only [relocateAll, Swept.complete_list_eq_ok_iff, relocate_eq_ok_iff]

theorem Moved.offset? {type moved : VerificationType} (h : type.Moved relocation moved) :
    Option.Rel relocation.Moves type.offset? moved.offset? := by
  cases type with
  | uninitialized offset =>
      rcases h with ⟨place, hplace, rfl⟩
      exact .some hplace
  | _ =>
      cases h
      exact .none

end VerificationType

/-! ## Frames -/

namespace FrameKind

/-- The second kind is the first one with the offsets of its types moved. -/
def Moved (relocation : Relocation) : FrameKind → FrameKind → Prop
  | sameWithItem item, kind => ∃ moved, item.Moved relocation moved ∧ kind = sameWithItem moved
  | append locals, kind => ∃ moved,
    List.Forall₂ (VerificationType.Moved relocation) locals moved ∧ kind = append moved
  | full locals stack, kind => ∃ moved moved',
    List.Forall₂ (VerificationType.Moved relocation) locals moved ∧
      List.Forall₂ (VerificationType.Moved relocation) stack moved' ∧ kind = full moved moved'
  | kind, kind' => kind' = kind

theorem relocate_eq_ok_iff {kind moved : FrameKind} :
    (kind.relocate relocation).complete = .ok moved ↔ kind.Moved relocation moved := by
  cases kind with
  | same => simp [relocate, Swept.complete, Moved, eq_comm]
  | chop count => simp [relocate, Swept.complete, Moved, eq_comm]
  | sameWithItem item =>
      simp only [relocate, Swept.complete_map_eq_ok_iff, VerificationType.relocate_eq_ok_iff, Moved]
  | append locals =>
      simp only [relocate, Swept.complete_map_eq_ok_iff, VerificationType.relocateAll_eq_ok_iff,
        Moved]
  | full locals stack =>
      have hlocals (moved : List VerificationType) :
          (VerificationType.relocateAll relocation locals).complete = .ok moved ↔ _ :=
        VerificationType.relocateAll_eq_ok_iff
      unfold relocate
      dsimp only
      cases hfault : (VerificationType.relocateAll relocation locals).fault with
      | some fault =>
          simp only [Swept.complete, hfault, reduceCtorEq, false_iff] at hlocals
          simp [Swept.complete, Swept.map, hfault, Moved, hlocals]
      | none =>
          simp only [Swept.complete, hfault, Except.ok.injEq] at hlocals
          simp [Swept.complete_map_eq_ok_iff, VerificationType.relocateAll_eq_ok_iff, Moved,
            ← hlocals]

theorem Moved.storable {kind moved : FrameKind} (h : kind.Moved relocation moved)
    (hstorable : kind.Storable) : moved.Storable := by
  cases kind with
  | same =>
      cases h
      trivial
  | chop count =>
      cases h
      exact hstorable
  | sameWithItem item =>
      rcases h with ⟨_, -, rfl⟩
      trivial
  | append locals =>
      rcases h with ⟨_, hlocals, rfl⟩
      simp only [Storable] at hstorable ⊢
      rwa [← hlocals.length_eq]
  | full locals stack =>
      rcases h with ⟨_, _, hlocals, hstack, rfl⟩
      simp only [Storable] at hstorable ⊢
      rwa [← hlocals.length_eq, ← hstack.length_eq]

theorem Moved.types {kind moved : FrameKind} (h : kind.Moved relocation moved) :
    List.Forall₂ (VerificationType.Moved relocation) kind.types moved.types := by
  cases kind with
  | same =>
      cases h
      exact .nil
  | chop count =>
      cases h
      exact .nil
  | sameWithItem item =>
      rcases h with ⟨_, hitem, rfl⟩
      exact .cons hitem .nil
  | append locals =>
      rcases h with ⟨_, hlocals, rfl⟩
      exact hlocals
  | full locals stack =>
      rcases h with ⟨_, _, hlocals, hstack, rfl⟩
      exact List.rel_append hlocals hstack

end FrameKind

/-- The second frame is the first one with all its offsets moved. -/
structure Frame.Moved (relocation : Relocation) (old new : Frame) : Prop where
  offset : relocation.Moves old.offset new.offset
  kind : old.kind.Moved relocation new.kind

theorem Frame.relocate_eq_ok_iff {frame moved : Frame} :
    (frame.relocate relocation).complete = .ok moved ↔ frame.Moved relocation moved := by
  unfold relocate
  cases happly : relocation.apply frame.offset with
  | error fault =>
      simp only [Swept.complete, reduceCtorEq, false_iff]
      intro h
      rw [Relocation.apply_eq_ok_iff.2 h.offset] at happly
      cases happly
  | ok offset =>
      have hoffset := Relocation.apply_eq_ok_iff.1 happly
      simp only [Swept.complete_map_eq_ok_iff, FrameKind.relocate_eq_ok_iff]
      constructor
      · intro h
        rcases h with ⟨kind, hkind, rfl⟩
        exact ⟨hoffset, hkind⟩
      · intro h
        refine ⟨moved.kind, h.kind, ?_⟩
        have hsame : offset.toNat = moved.offset.toNat :=
          Option.some.inj (hoffset.symm.trans h.offset)
        rw [UInt16.toNat_inj.1 hsame]

theorem Frame.Moved.offsets {frame moved : Frame} (h : frame.Moved relocation moved) :
    List.Forall₂ relocation.Moves frame.offsets moved.offsets :=
  .cons h.offset (List.rel_filterMap (fun _ _ htype => htype.offset?) h.kind.types)

theorem StackMap.relocate_eq_ok_iff {frames moved : StackMap} :
    (frames.relocate relocation).complete = .ok moved ↔
      List.Forall₂ (Frame.Moved relocation) frames moved := by
  simp only [relocate, Swept.complete_list_eq_ok_iff, Frame.relocate_eq_ok_iff]

end CallProbe
