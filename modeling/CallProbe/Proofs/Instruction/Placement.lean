import CallProbe.Instruction.Layout
import CallProbe.Proofs.Pool.Symbols

/-!
# Where a layout places its events

Laying out a stream adds one placement after the other. `Layout.Lays` is such a run
with the pools it went through; what it settles about positions, labels and pool
indices is read off it by induction.
-/

namespace CallProbe

open Pool Outcome

/-! ## Steps -/

/-- Bytes of a placed event. -/
def Placement.size (placement : Placement) : Nat :=
  placement.instruction.size placement.position placement.index

/-- The layout with a further event at its end. -/
def Layout.add (layout : Layout) (placement : Placement) : Layout where
  placed := placement :: layout.placed
  labels := match placement.instruction with
    | .label label => layout.labels.insert label placement.position
    | _ => layout.labels
  length := layout.length + placement.size

namespace Layout

variable {pool left : Pool} {layout result : Layout} {placements : List Placement}

/-- An event that a layout has room for: it starts where the layout ends, and is no label that the
layout knows. -/
structure Admits (layout : Layout) (placement : Placement) : Prop where
  position : placement.position = layout.length
  fresh : ∀ label, placement.instruction = .label label → layout.labels.contains label = false
  room : layout.length + placement.size ≤ maxCodeLength

theorem labelsWith_eq_ok_iff {instruction : Instruction} {labels : Std.TreeMap Nat Nat} :
    layout.labelsWith instruction = .ok labels ↔
      (∀ label, instruction = .label label → layout.labels.contains label = false) ∧
        labels = (layout.add { instruction, position := layout.length, index := 0 }).labels := by
  cases instruction with
  | label label =>
      cases hknown : layout.labels.contains label with
      | true => simp [labelsWith, hknown]
      | false => simpa [labelsWith, hknown, add] using eq_comm
  | _ => simpa [labelsWith, add] using eq_comm

theorem place_eq_ok_iff {instruction : Instruction} :
    layout.place instruction pool = (.ok result, left) ↔
      ∃ placement, placement.instruction = instruction ∧
        instruction.lower pool = (.ok placement.index, left) ∧ layout.Admits placement ∧
        result = layout.add placement := by
  unfold place
  simp only [Edit.bind_eq_ok_iff, Edit.lift_eq_ok_iff, labelsWith_eq_ok_iff]
  constructor
  · intro h
    rcases h with ⟨index, middle, hlower, _, _, ⟨⟨hfresh, rfl⟩, rfl⟩, h⟩
    split at h
    · obtain ⟨_, _, hthrow, _⟩ := Edit.bind_eq_ok_iff.1 h
      exact absurd hthrow Edit.throw_ne_ok
    · rename_i hroom
      obtain ⟨rfl, rfl⟩ := Edit.pure_eq_ok_iff.1 h
      exact ⟨{ instruction, position := layout.length, index }, rfl, hlower,
        ⟨rfl, hfresh, Nat.le_of_not_lt hroom⟩, rfl⟩
  · intro h
    rcases h with ⟨⟨_, _, index⟩, rfl, hlower, ⟨hposition, hfresh, hroom⟩, rfl⟩
    dsimp only at hposition
    subst hposition
    refine ⟨index, left, hlower, _, left, ⟨⟨hfresh, rfl⟩, rfl⟩, ?_⟩
    split
    · rename_i hfull
      exact absurd hroom (Nat.not_le.2 hfull)
    · rfl

/-! ## Runs -/

/-- The placements that come about behind `layout`, one after the other. -/
inductive Lays : Layout → Pool → List Placement → Layout → Pool → Prop
  | nil {layout : Layout} {pool : Pool} : Lays layout pool [] layout pool
  | cons {layout result : Layout} {pool middle left : Pool} {placement : Placement}
      {rest : List Placement} (admits : layout.Admits placement)
      (lowered : placement.instruction.lower pool = (.ok placement.index, middle))
      (tail : Lays (layout.add placement) middle rest result left) :
      Lays layout pool (placement :: rest) result left

theorem foldlM_place_eq_ok_iff {stream : List Instruction} :
    stream.foldlM place layout pool = (.ok result, left) ↔
      ∃ placements, placements.map Placement.instruction = stream ∧
        Lays layout pool placements result left := by
  induction stream generalizing layout pool with
  | nil =>
      rw [List.foldlM_nil, Edit.pure_eq_ok_iff]
      constructor
      · intro h
        rcases h with ⟨rfl, rfl⟩
        exact ⟨[], rfl, .nil⟩
      · intro h
        rcases h with ⟨placements, hmap, hlays⟩
        obtain rfl := List.map_eq_nil_iff.1 hmap
        cases hlays
        exact ⟨rfl, rfl⟩
  | cons instruction stream ih =>
      simp only [List.foldlM_cons, Edit.bind_eq_ok_iff, place_eq_ok_iff, ih]
      constructor
      · intro h
        rcases h with ⟨_, middle, ⟨placement, rfl, lowered, admits, rfl⟩, rest, rfl, tail⟩
        exact ⟨placement :: rest, rfl, .cons admits lowered tail⟩
      · intro h
        rcases h with ⟨placements, hmap, hlays⟩
        cases hlays with
        | nil => cases hmap
        | @cons _ _ _ middle _ placement rest admits lowered tail =>
            obtain ⟨rfl, rfl⟩ := List.cons.inj hmap
            exact ⟨_, middle, ⟨placement, rfl, lowered, admits, rfl⟩, rest, rfl, tail⟩

theorem ofStream_eq_ok_iff {stream : List Instruction} :
    ofStream stream pool = (.ok result, left) ↔
      ∃ placements, placements.map Placement.instruction = stream ∧
        Lays {} pool placements result left := foldlM_place_eq_ok_iff

/-! ## Positions -/

/-- The placements fill the bytes from `start` to `stop` without gaps. -/
inductive Consecutive : Nat → List Placement → Nat → Prop
  | nil {start : Nat} : Consecutive start [] start
  | cons {stop : Nat} {placement : Placement} {rest : List Placement}
      (tail : Consecutive (placement.position + placement.size) rest stop) :
      Consecutive placement.position (placement :: rest) stop

theorem Lays.consecutive (h : Lays layout pool placements result left) :
    Consecutive layout.length placements result.length := by
  induction h with
  | nil => exact .nil
  | cons admits _ _ ih =>
      rw [add, ← admits.position] at ih
      rw [← admits.position]
      exact .cons ih

theorem Lays.length_le (h : Lays layout pool placements result left)
    (hle : layout.length ≤ maxCodeLength) : result.length ≤ maxCodeLength := by
  induction h with
  | nil => exact hle
  | cons admits _ _ ih => exact ih admits.room

theorem Lays.placed (h : Lays layout pool placements result left) :
    result.placed = placements.reverse ++ layout.placed := by
  induction h with
  | nil => rfl
  | cons _ _ _ ih => simp [ih, add]

/-! ## Labels -/

/-- A label has the place of the event that marks it. -/
theorem Lays.labels_getElem?_iff (h : Lays layout pool placements result left) {label place : Nat} :
    result.labels[label]? = some place ↔ layout.labels[label]? = some place ∨
      ∃ placement ∈ placements, placement.instruction = .label label ∧
        placement.position = place := by
  induction h with
  | nil => simp
  | @cons layout _ _ _ _ placement rest admits _ _ ih =>
      rw [ih, List.exists_mem_cons_iff, ← or_assoc]
      refine or_congr_left ?_
      unfold add
      split
      · rename_i marked hmarked
        have hnone : layout.labels[marked]? = none :=
          Std.TreeMap.getElem?_eq_none_of_contains_eq_false (admits.fresh marked hmarked)
        rw [Std.TreeMap.getElem?_insert, hmarked, Instruction.label.injEq]
        by_cases heq : marked = label
        · subst heq
          simp [hnone]
        · simp [heq]
      · rename_i hother
        constructor
        · intro hold
          exact .inl hold
        · intro heither
          rcases heither with hold | hmarks
          · exact hold
          · exact (hother label hmarks.1).elim

end Layout

/-! ## Pool indices -/

/-- An index leads to the operand that an instruction names. -/
def Instruction.Indexed (pool : Pool) (index : UInt16) : Instruction → Prop
  | loadString text => pool.HoldsString index text
  | invoke call =>
    match call.poolIndex with
    | some stored => index = stored
    | none => pool.HoldsMethod index call.member
  | _ => True

namespace Instruction

theorem Indexed.extends {pool later : Pool} {index : UInt16} {instruction : Instruction}
    (hext : later.Extends pool) (h : instruction.Indexed pool index) :
    instruction.Indexed later index := by
  cases instruction with
  | loadString text => exact hext.holdsString h
  | invoke call =>
      simp only [Indexed] at h ⊢
      cases hindex : call.poolIndex with
      | some stored => simpa only [hindex] using h
      | none =>
          simp only [hindex] at h
          exact hext.holdsMethod h
  | _ => trivial

theorem lower_ensures (instruction : Instruction) :
    instruction.lower.Ensures fun pool index => instruction.Indexed pool index := by
  cases instruction with
  | loadString text => exact addString_ensures text
  | invoke call =>
      simp only [lower, Indexed]
      cases call.poolIndex with
      | some stored => exact Edit.Ensures.pure fun _ => rfl
      | none => exact addMethodRef_ensures call.member
  | _ => exact Edit.Ensures.pure fun _ => trivial

end Instruction

/-! ## Lowering -/

namespace Layout

variable {pool left : Pool} {layout result : Layout} {placements : List Placement}

theorem mapM_lower_cons {instruction : Instruction} {stream : List Instruction}
    {indices : List UInt16} :
    (instruction :: stream).mapM Instruction.lower pool = (.ok indices, left) ↔
      ∃ index rest middle, instruction.lower pool = (.ok index, middle) ∧
        stream.mapM Instruction.lower middle = (.ok rest, left) ∧ indices = index :: rest := by
  simp only [List.mapM_cons, Edit.bind_eq_ok_iff, Edit.pure_eq_ok_iff]
  constructor
  · intro h
    rcases h with ⟨index, middle, hlower, rest, _, hrest, rfl, rfl⟩
    exact ⟨index, rest, middle, hlower, hrest, rfl⟩
  · intro h
    rcases h with ⟨index, rest, middle, hlower, hrest, rfl⟩
    exact ⟨index, middle, hlower, rest, left, hrest, rfl, rfl⟩

/-- A run adds to the pool what lowering its events adds. -/
theorem Lays.lowered (h : Lays layout pool placements result left) :
    (placements.map Placement.instruction).mapM Instruction.lower pool =
      (.ok (placements.map Placement.index), left) := by
  induction h with
  | nil => rfl
  | cons _ lowered _ ih => exact mapM_lower_cons.2 ⟨_, _, _, lowered, ih, rfl⟩

/-- Events that need nothing of the pool leave it as it is. -/
theorem mapM_lower_of_unchanged
    (h : ∀ placement ∈ placements, placement.instruction.lower pool = (.ok placement.index, pool)) :
    (placements.map Placement.instruction).mapM Instruction.lower pool =
      (.ok (placements.map Placement.index), pool) := by
  induction placements with
  | nil => rfl
  | cons placement rest ih =>
      obtain ⟨hhead, hrest⟩ := List.forall_mem_cons.1 h
      exact mapM_lower_cons.2 ⟨_, _, _, hhead, ih hrest, rfl⟩

end Layout

/-- What a run leaves in the pool still leads to the operands of all its events. -/
theorem Layout.Lays.pool {layout result : Layout} {pool left : Pool} {placements : List Placement}
    (h : Lays layout pool placements result left) (hs : pool.Sound) :
    left.Sound ∧ left.Extends pool ∧
      ∀ placement ∈ placements, placement.instruction.Indexed left placement.index := by
  induction h with
  | nil => exact ⟨hs, Extends.refl _, by simp⟩
  | @cons _ _ pool middle left placement rest _ lowered _ ih =>
      obtain ⟨hsound, hext, hindexed⟩ := placement.instruction.lower_ensures pool hs
      rw [lowered] at hsound hext hindexed
      obtain ⟨hsound', hext', hrest⟩ := ih hsound
      refine ⟨hsound', hext'.trans hext, List.forall_mem_cons.2 ⟨?_, hrest⟩⟩
      exact (hindexed placement.index rfl).extends hext'

end CallProbe
