import CallProbe.MethodBody.Relocation
import CallProbe.Proofs.MethodBody.Storage
import CallProbe.Proofs.StackMap.Moving

/-!
# Moving method bodies

A body is moved exactly if every offset its known attributes and handlers refer to has a
place. The moved body refers to the places of the old offsets, in the same order.
-/

namespace CallProbe

open Outcome

variable {relocation : Relocation}

/-! ## Entries of tables -/

structure Handler.Moved (relocation : Relocation) (old new : Handler) : Prop where
  start : relocation.Moves old.start new.start
  stop : relocation.Moves old.stop new.stop
  target : relocation.Moves old.target new.target
  catchType : new.catchType = old.catchType

theorem Handler.relocate_eq_ok_iff {handler moved : Handler} :
    (handler.relocate relocation).complete = .ok moved ↔ handler.Moved relocation moved := by
  unfold relocate
  simp only [Swept.complete_andThen_eq_ok_iff, Swept.complete_ofExcept_eq_ok_iff,
    Relocation.apply_eq_ok_iff]
  constructor
  · intro h
    rcases h with ⟨_, ⟨_, ⟨start, hstart, rfl⟩, stop, hstop, rfl⟩, target, htarget, rfl⟩
    exact ⟨hstart, hstop, htarget, rfl⟩
  · intro h
    rcases h with ⟨hstart, hstop, htarget, htype⟩
    refine ⟨_, ⟨_, ⟨_, hstart, rfl⟩, _, hstop, rfl⟩, _, htarget, ?_⟩
    rw [← htype]

theorem Handler.Moved.offsets {old new : Handler} (h : old.Moved relocation new) :
    List.Forall₂ (fun old new => relocation old = some new) old.offsets new.offsets :=
  .cons h.start (.cons h.stop (.cons h.target .nil))

structure LineMark.Moved (relocation : Relocation) (old new : LineMark) : Prop where
  start : relocation.Moves old.start new.start
  line : new.line = old.line

theorem LineMark.relocate_eq_ok_iff {mark moved : LineMark} :
    mark.relocate relocation = .ok moved ↔ mark.Moved relocation moved := by
  unfold relocate
  simp only [bind_eq_ok_iff, pure_eq_ok_iff, Relocation.apply_eq_ok_iff]
  constructor
  · intro h
    rcases h with ⟨start, hstart, rfl⟩
    exact ⟨hstart, rfl⟩
  · intro h
    refine ⟨_, h.start, ?_⟩
    rw [← h.line]

/-- The lines at a place are those at the only offset that has moved there. -/
theorem LineMark.lines_moved {marks moved : List LineMark}
    (h : List.Forall₂ (Moved relocation) marks moved) {offset place : Nat}
    (hsame : ∀ {old new : Nat}, relocation old = some new → (old = offset ↔ new = place)) :
    (moved.filter (·.start.toNat = place)).map (·.line) =
      (marks.filter (·.start.toNat = offset)).map (·.line) := by
  induction h with
  | nil => rfl
  | @cons mark mark' rest rest' hmark _ ih =>
      have hstart : mark.start.toNat = offset ↔ mark'.start.toNat = place := hsame hmark.start
      by_cases hoffset : mark.start.toNat = offset
      · simp [hoffset, hstart.1 hoffset, hmark.line, ih]
      · simp [hoffset, mt hstart.2 hoffset, ih]

/-- The end of a variable's range. -/
def VariableRange.stop (range : VariableRange) : Nat := range.start.toNat + range.length.toNat

/-- A moved range reaches from the place of its start to the place of its end, unless these have
changed places. -/
structure VariableRange.Moved (relocation : Relocation) (old new : VariableRange) : Prop where
  stop_le : old.stop ≤ maxCodeLength
  start : relocation.Moves old.start new.start
  stop : ∃ stop : UInt16, relocation old.stop = some stop.toNat ∧
    new.length = UInt16.ofNat (stop.toNat - new.start.toNat)
  name : new.name = old.name
  descriptor : new.descriptor = old.descriptor
  slot : new.slot = old.slot

theorem VariableRange.relocate_eq_ok_iff {range moved : VariableRange} :
    range.relocate relocation = .ok moved ↔ range.Moved relocation moved := by
  unfold relocate
  by_cases hfar : maxCodeLength < range.start.toNat + range.length.toNat
  · simp only [hfar, if_true, bind_eq_ok_iff, throw_ne_ok, false_and, exists_false, false_iff]
    intro h
    exact absurd h.stop_le (Nat.not_le.2 hfar)
  have hback : (UInt16.ofNat range.stop).toNat = range.stop :=
    UInt16.toNat_ofNat_of_lt' (Nat.lt_succ_of_le (Nat.le_of_not_lt hfar))
  have hstop (stop : UInt16) : relocation.Moves (UInt16.ofNat range.stop) stop ↔
      relocation range.stop = some stop.toNat := by
    unfold Relocation.Moves
    rw [hback]
  simp only [if_neg hfar, bind_eq_ok_iff, pure_eq_ok_iff, Relocation.apply_eq_ok_iff]
  change (∃ start, relocation.Moves range.start start ∧
    ∃ stop, relocation.Moves (UInt16.ofNat range.stop) stop ∧ _) ↔ _
  simp only [hstop]
  constructor
  · intro h
    rcases h with ⟨start, hstart, stop, hstop, rfl⟩
    exact ⟨Nat.le_of_not_lt hfar, hstart, ⟨stop, hstop, rfl⟩, rfl, rfl, rfl⟩
  · intro h
    rcases h with ⟨-, hstart, ⟨stop, hstop, hlength⟩, hname, hdescriptor, hslot⟩
    refine ⟨_, hstart, stop, hstop, ?_⟩
    rw [← hname, ← hdescriptor, ← hslot, ← hlength]

/-- None of the given offsets overtakes another one. -/
def Relocation.MonotoneOn (relocation : Relocation) (offsets : List Nat) : Prop :=
  ∀ ⦃a b p q : Nat⦄, a ∈ offsets → b ∈ offsets → a ≤ b →
    relocation a = some p → relocation b = some q → p ≤ q

theorem Relocation.MonotoneOn.mono {offsets others : List Nat} (h : relocation.MonotoneOn others)
    (hsub : offsets ⊆ others) : relocation.MonotoneOn offsets := by
  intro a b p q ha hb
  exact h (hsub ha) (hsub hb)

/-- Unless its ends have changed places, a moved range reaches from the place of its start to the
place of its end. -/
theorem VariableRange.Moved.spans {old new : VariableRange} (h : old.Moved relocation new)
    {start stop : Nat} (hstart : relocation old.start.toNat = some start)
    (hstop : relocation old.stop = some stop) (hle : start ≤ stop) :
    new.start.toNat = start ∧ new.stop = stop := by
  obtain ⟨place, hplace, hlength⟩ := h.stop
  obtain rfl : new.start.toNat = start := Option.some.inj (h.start.symm.trans hstart)
  obtain rfl : place.toNat = stop := Option.some.inj (hplace.symm.trans hstop)
  have hlt : place.toNat < 65536 := place.toNat_lt
  refine ⟨rfl, ?_⟩
  rw [VariableRange.stop, hlength, UInt16.toNat_ofNat_of_lt' (show _ < 65536 by omega)]
  omega

/-- Where no offset overtakes another, a moved range ends at the place of the old end. -/
theorem VariableRange.Moved.offsets {old new : VariableRange} (h : old.Moved relocation new)
    (hmono : relocation.MonotoneOn old.offsets) :
    List.Forall₂ (fun old new => relocation old = some new) old.offsets new.offsets := by
  obtain ⟨stop, hstop, -⟩ := h.stop
  have hle : new.start.toNat ≤ stop.toNat :=
    hmono (by simp [VariableRange.offsets]) (by simp [VariableRange.offsets])
      (Nat.le_add_right ..) h.start hstop
  obtain ⟨-, hend⟩ := h.spans h.start hstop hle
  refine .cons h.start (.cons ?_ .nil)
  show relocation old.stop = some new.stop
  rw [hend]
  exact hstop

/-! ## Nested attributes -/

namespace NestedAttribute

/-- Whether the attribute's content is known, so that it can be moved. -/
def isKnown : NestedAttribute → Bool
  | unknown _ _ => false
  | _ => true

/-- The second attribute is the first one with all its offsets moved. -/
def Moved (relocation : Relocation) : NestedAttribute → NestedAttribute → Prop
  | lineNumbers name marks, nested => ∃ moved,
    List.Forall₂ (LineMark.Moved relocation) marks moved ∧ nested = lineNumbers name moved
  | localVariables table name ranges, nested => ∃ moved,
    List.Forall₂ (VariableRange.Moved relocation) ranges moved ∧
      nested = localVariables table name moved
  | stackMap name frames, nested => ∃ moved,
    List.Forall₂ (Frame.Moved relocation) frames moved ∧ nested = stackMap name moved
  | unknown name data, nested => nested = unknown name data

theorem relocate_eq_ok_iff {nested moved : NestedAttribute} :
    nested.relocate relocation = .ok moved ↔ nested.Moved relocation moved := by
  cases nested with
  | unknown name data => simp [relocate, Moved]
  | _ =>
      simp only [relocate, bind_eq_ok_iff, pure_eq_ok_iff, mapM_eq_ok_iff,
        LineMark.relocate_eq_ok_iff, VariableRange.relocate_eq_ok_iff,
        StackMap.relocate_eq_ok_iff, Moved]

theorem relocateAll_eq_ok_iff {attributes moved : List NestedAttribute} :
    (relocateAll relocation attributes).1 = .ok moved ↔
      List.Forall₂ (Moved relocation) (attributes.filter isKnown) moved := by
  suffices h : ∀ done events, (relocateAfter relocation done events attributes).1 = .ok moved ↔
      ∃ rest, moved = done.reverse ++ rest ∧
        List.Forall₂ (Moved relocation) (attributes.filter isKnown) rest by
    simpa [relocateAll] using h [] []
  induction attributes with
  | nil =>
      intro done events
      simp [relocateAfter, List.forall₂_nil_left_iff, eq_comm]
  | cons nested rest ih =>
      intro done events
      cases nested with
      | unknown name data => simpa [relocateAfter, isKnown] using ih _ _
      | _ =>
          unfold relocateAfter
          rw [List.filter_cons_of_pos rfl]
          simp only [List.forall₂_cons_left_iff, ← relocate_eq_ok_iff]
          split
          · rename_i moved' hmoved
            simp only [ih, hmoved, Except.ok.injEq]
            constructor
            · intro h
              rcases h with ⟨others, rfl, hothers⟩
              exact ⟨_, by simp, _, others, rfl, hothers, rfl⟩
            · intro h
              rcases h with ⟨_, rfl, _, others, rfl, hothers, rfl⟩
              exact ⟨others, by simp, hothers⟩
          · rename_i fault hfault
            simp [hfault]

theorem Moved.storable {pool : Pool} {nested moved : NestedAttribute}
    (h : nested.Moved relocation moved) (hstorable : nested.Storable pool) :
    moved.Storable pool := by
  cases nested with
  | lineNumbers name marks =>
      rcases h with ⟨_, -, rfl⟩
      exact hstorable
  | localVariables table name ranges =>
      rcases h with ⟨_, -, rfl⟩
      exact hstorable
  | stackMap name frames =>
      rcases h with ⟨moved, hframes, rfl⟩
      exact ⟨hstorable.1, forall_mem_of_forall₂ hframes (fun h => h.kind.storable) hstorable.2⟩
  | unknown name data =>
      cases h
      exact hstorable

theorem Moved.offsets {old new : NestedAttribute} (h : old.Moved relocation new)
    (hmono : relocation.MonotoneOn old.offsets) :
    List.Forall₂ (fun old new => relocation old = some new) old.offsets new.offsets := by
  cases old with
  | lineNumbers name marks =>
      rcases h with ⟨_, hmarks, rfl⟩
      exact List.rel_map (fun _ _ hmark => hmark.start) hmarks
  | localVariables table name ranges =>
      rcases h with ⟨_, hranges, rfl⟩
      have hmonos : ∀ range ∈ ranges, relocation.MonotoneOn range.offsets :=
        fun _ hrange => hmono.mono fun _ => List.mem_flatMap_of_mem hrange
      exact List.rel_flatMap ((List.forall₂_and_left ..).2 ⟨hmonos, hranges⟩)
        fun _ _ hrange => hrange.2.offsets hrange.1
  | stackMap name frames =>
      rcases h with ⟨moved, hframes, rfl⟩
      have hframe : List.Forall₂ relocation.Moves (StackMap.offsets frames)
          (StackMap.offsets moved) := List.rel_flatMap hframes fun _ _ hframe => hframe.offsets
      unfold NestedAttribute.offsets
      rwa [List.forall₂_map_left_iff, List.forall₂_map_right_iff]
  | unknown name data =>
      cases h
      exact .nil

theorem Moved.lineMarks {old new : NestedAttribute} (h : old.Moved relocation new) :
    List.Forall₂ (LineMark.Moved relocation) old.lineMarks new.lineMarks := by
  cases old with
  | lineNumbers name marks =>
      rcases h with ⟨_, hmarks, rfl⟩
      exact hmarks
  | localVariables table name ranges =>
      rcases h with ⟨_, -, rfl⟩
      exact .nil
  | stackMap name frames =>
      rcases h with ⟨_, -, rfl⟩
      exact .nil
  | unknown name data =>
      cases h
      exact .nil

/-- Nothing but unknown content is without known offsets and lines. -/
theorem flatMap_filter_isKnown {α : Type} {f : NestedAttribute → List α}
    (h : ∀ name data, f (unknown name data) = []) (attributes : List NestedAttribute) :
    (attributes.filter isKnown).flatMap f = attributes.flatMap f := by
  induction attributes with
  | nil => rfl
  | cons nested rest ih =>
      cases nested with
      | unknown name data =>
          rw [List.filter_cons_of_neg (by simp [isKnown]), ih, List.flatMap_cons, h,
            List.nil_append]
      | _ => rw [List.filter_cons_of_pos rfl, List.flatMap_cons, List.flatMap_cons, ih]

end NestedAttribute

/-! ## Bodies -/

namespace MethodBody

/-- The second body is the first one around a new code array: what has no known content is gone,
and everything else is moved. -/
structure Moved (relocation : Relocation) (code : Bytes) (old new : MethodBody) : Prop where
  maxStack : new.maxStack = old.maxStack
  maxLocals : new.maxLocals = old.maxLocals
  code : new.code = code
  handlers : List.Forall₂ (Handler.Moved relocation) old.handlers new.handlers
  attributes : List.Forall₂ (NestedAttribute.Moved relocation)
    (old.attributes.filter NestedAttribute.isKnown) new.attributes

variable {code : Bytes} {body moved : MethodBody}

theorem relocate_eq_ok_iff :
    (body.relocate code relocation).1.complete = .ok moved ↔ body.Moved relocation code moved := by
  have hhandlers (handlers : List Handler) :
      (Swept.list (Handler.relocate relocation) body.handlers).complete = .ok handlers ↔
        List.Forall₂ (Handler.Moved relocation) body.handlers handlers := by
    simp only [Swept.complete_list_eq_ok_iff, Handler.relocate_eq_ok_iff]
  unfold relocate
  dsimp only
  cases hfault : (Swept.list (Handler.relocate relocation) body.handlers).fault with
  | some fault =>
      simp only [Swept.complete, hfault, reduceCtorEq, false_iff] at hhandlers ⊢
      intro h
      exact hhandlers _ h.handlers
  | none =>
      simp only [Swept.complete, hfault, Except.ok.injEq] at hhandlers
      have hattributes (attributes : List NestedAttribute) :
          (NestedAttribute.relocateAll relocation body.attributes).1 = .ok attributes ↔ _ :=
        NestedAttribute.relocateAll_eq_ok_iff
      rcases hmoved : NestedAttribute.relocateAll relocation body.attributes with ⟨outcome, events⟩
      cases outcome with
      | error fault =>
          simp only [hmoved, reduceCtorEq, false_iff] at hattributes
          simp only [Swept.complete, reduceCtorEq, false_iff]
          intro h
          exact hattributes _ h.attributes
      | ok attributes =>
          simp only [hmoved, Except.ok.injEq] at hattributes
          simp only [Swept.complete, Except.ok.injEq]
          constructor
          · intro h
            subst h
            exact ⟨rfl, rfl, rfl, (hhandlers _).1 rfl, (hattributes _).1 rfl⟩
          · intro h
            rcases h with ⟨hstack, hlocals, hcode, hhandler, hattribute⟩
            rw [(hhandlers _).2 hhandler, (hattributes _).2 hattribute, ← hstack, ← hlocals,
              ← hcode]

theorem Moved.offsets (h : body.Moved relocation code moved)
    (hmono : relocation.MonotoneOn body.offsets) :
    List.Forall₂ (fun old new => relocation old = some new) body.offsets moved.offsets := by
  have hhandlers : List.Forall₂ _ (body.handlers.flatMap Handler.offsets) _ :=
    List.rel_flatMap h.handlers fun _ _ hhandler => hhandler.offsets
  have hmonos : ∀ nested ∈ body.attributes.filter NestedAttribute.isKnown,
      relocation.MonotoneOn nested.offsets := by
    intro nested hnested
    refine hmono.mono fun offset hoffset => List.mem_append_right _ ?_
    exact List.mem_flatMap_of_mem (List.mem_of_mem_filter hnested) hoffset
  have hattributes : List.Forall₂ _
      ((body.attributes.filter NestedAttribute.isKnown).flatMap NestedAttribute.offsets) _ :=
    List.rel_flatMap ((List.forall₂_and_left ..).2 ⟨hmonos, h.attributes⟩)
      fun _ _ hnested => hnested.2.offsets hnested.1
  rw [NestedAttribute.flatMap_filter_isKnown fun _ _ => rfl] at hattributes
  exact List.rel_append hhandlers hattributes

theorem Moved.lineMarks (h : body.Moved relocation code moved) :
    List.Forall₂ (LineMark.Moved relocation) body.lineMarks moved.lineMarks := by
  have hattributes : List.Forall₂ _
      ((body.attributes.filter NestedAttribute.isKnown).flatMap NestedAttribute.lineMarks) _ :=
    List.rel_flatMap h.attributes fun _ _ hnested => hnested.lineMarks
  rwa [NestedAttribute.flatMap_filter_isKnown fun _ _ => rfl] at hattributes

theorem Moved.storable {pool : Pool} (h : body.Moved relocation code moved)
    (hstorable : body.Storable pool) (hne : code ≠ []) (hle : code.length ≤ maxCodeLength) :
    moved.Storable pool := by
  refine ⟨h.code ▸ hne, h.code ▸ hle, forall_mem_of_forall₂ h.attributes (fun h => h.storable) ?_⟩
  intro nested hnested
  exact hstorable.attributes nested (List.mem_of_mem_filter hnested)

end MethodBody

end CallProbe
