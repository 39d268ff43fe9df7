import CallProbe.Proofs.Pool.Storage

/-!
# The slots of a pool and its look-up

Whatever was done to a pool, a slot without a constant is slot zero or belongs to the wide constant
in front of it, and the look-up knows the constants that are there, each by its first index. All of
it is a fact about `append`, the one way in which pools grow.
-/

namespace CallProbe

theorem Constant.slots_eq_two_iff {constant : Constant} : constant.slots = 2 ↔
    (∃ value, constant = .long value) ∨ ∃ bits, constant = .double bits := by
  cases constant <;> simp [Constant.slots]

namespace Pool

variable {pool left : Pool} {constant other : Constant} {index : UInt16}

/-- The first of the indices that hold a constant. -/
def FirstIndex (pool : Pool) (constant : Constant) (index : UInt16) : Prop :=
  pool.get? index = some constant ∧ ∀ earlier, pool.get? earlier = some constant → index ≤ earlier

/-- No index holds the constant. -/
def Lacks (pool : Pool) (constant : Constant) : Prop :=
  ∀ index, pool.get? index ≠ some constant

theorem exists_firstIndex (h : pool.get? index = some constant) :
    ∃ first, pool.FirstIndex constant first := by
  induction hn : index.toNat using Nat.strongRecOn generalizing index with
  | ind n ih =>
      by_cases hfirst : ∀ earlier, pool.get? earlier = some constant → index ≤ earlier
      · exact ⟨index, h, hfirst⟩
      · simp only [Classical.not_forall, UInt16.not_le] at hfirst
        obtain ⟨earlier, hget, hlt⟩ := hfirst
        exact ih earlier.toNat (hn ▸ UInt16.lt_iff_toNat_lt.1 hlt) hget rfl

/-- The slots have the layout of a constant pool, and the look-up goes with them. -/
structure Represented (pool : Pool) : Prop where
  zero : pool.entries[0]? = some none
  gap_iff : ∀ i, pool.entries[i + 1]? = some none ↔
    (∃ value, pool.entries[i]? = some (some (.long value))) ∨
      ∃ bits, pool.entries[i]? = some (some (.double bits))
  slots_le : pool.slots ≤ maxSlots
  lookup_iff : ∀ {constant index}, pool.lookup[constant]? = some index ↔
    pool.FirstIndex constant index

theorem Represented.lookup_eq_none_iff (h : pool.Represented) :
    pool.lookup[constant]? = none ↔ pool.Lacks constant := by
  constructor
  · intro hnone index hget
    obtain ⟨first, hfirst⟩ := exists_firstIndex hget
    rw [h.lookup_iff.2 hfirst] at hnone
    cases hnone
  · intro hlacks
    cases hlookup : pool.lookup[constant]? with
    | none => rfl
    | some index => exact absurd (h.lookup_iff.1 hlookup).1 (hlacks index)

/-! ## Appending -/

/-- A new constant goes into the first slot behind all others, and a wide one takes the slot behind
it as well. -/
theorem entries_append (pool : Pool) (constant : Constant) (i : Nat) :
    (pool.append constant).entries[i]? =
      if i < pool.slots then pool.entries[i]?
      else if i = pool.slots then some (some constant)
      else if i = pool.slots + 1 ∧ constant.slots = 2 then some none
      else none := by
  unfold append slots
  dsimp only
  by_cases hwide : constant.slots = 2
  · simp only [if_pos hwide, Array.getElem?_push, Array.size_push]
    grind
  · simp only [if_neg hwide, Array.getElem?_push]
    grind

theorem get?_append : (pool.append constant).get? index = some other ↔
    pool.get? index = some other ∨ index.toNat = pool.slots ∧ other = constant := by
  unfold get?
  rw [entries_append]
  by_cases hlt : index.toNat < pool.slots
  · simp [hlt, Nat.ne_of_lt hlt]
  · have hnone : pool.entries[index.toNat]? = none := Array.getElem?_eq_none (Nat.le_of_not_lt hlt)
    rw [if_neg hlt, hnone]
    by_cases hlast : index.toNat = pool.slots
    · simp [hlast, eq_comm]
    · simp only [hlast, if_false, false_and, Option.join_none, reduceCtorEq, or_self, iff_false]
      split <;> simp

/-- Appending changes no first index, and adds one for a constant that was not there. -/
theorem firstIndex_append : (pool.append constant).FirstIndex other index ↔
    pool.FirstIndex other index ∨
      index.toNat = pool.slots ∧ other = constant ∧ pool.Lacks constant := by
  constructor
  · intro h
    obtain ⟨hget, hfirst⟩ := h
    rcases get?_append.1 hget with hold | ⟨hindex, rfl⟩
    · exact .inl ⟨hold, fun earlier h => hfirst earlier (get?_append.2 (.inl h))⟩
    · refine .inr ⟨hindex, rfl, fun earlier h => ?_⟩
      have hle : index.toNat ≤ earlier.toNat := hfirst earlier (get?_append.2 (.inl h))
      have hlt := toNat_lt_slots h
      omega
  · intro h
    rcases h with ⟨hget, hfirst⟩ | ⟨hindex, rfl, hlacks⟩
    · refine ⟨get?_append.2 (.inl hget), fun earlier h => ?_⟩
      rcases get?_append.1 h with hold | ⟨hlast, -⟩
      · exact hfirst earlier hold
      · have hlt := toNat_lt_slots hget
        exact UInt16.le_iff_toNat_le.2 (by omega)
    · refine ⟨get?_append.2 (.inr ⟨hindex, rfl⟩), fun earlier h => ?_⟩
      rcases get?_append.1 h with hold | ⟨hlast, -⟩
      · exact absurd hold (hlacks earlier)
      · exact UInt16.le_iff_toNat_le.2 (by omega)

theorem Represented.append (h : pool.Represented)
    (hroom : pool.slots + constant.slots ≤ maxSlots) : (pool.append constant).Represented := by
  have hpos : 0 < pool.slots := (Array.getElem?_eq_some_iff.1 h.zero).1
  have hlast : (UInt16.ofNat pool.slots).toNat = pool.slots := toNat_count h.slots_le
  refine ⟨?_, fun i => ?_, by rwa [slots_append], fun {other index} => ?_⟩
  · rw [entries_append, if_pos hpos, h.zero]
  · have hgap := h.gap_iff i
    simp only [entries_append]
    rcases Nat.lt_trichotomy (i + 1) pool.slots with hlt | heq | hgt
    · simpa only [hlt, if_true, Nat.lt_of_succ_lt hlt] using hgap
    · -- The old last slot holds no wide constant: the slot behind it would be an old one.
      have hnone : pool.entries[i + 1]? = none := Array.getElem?_eq_none (Nat.le_of_eq heq.symm)
      rw [hnone] at hgap
      have hi : i < pool.slots := heq ▸ Nat.lt_succ_self i
      simp only [heq, Nat.lt_irrefl, if_false, if_true, hi]
      simpa using hgap
    · by_cases hi : i = pool.slots
      · subst hi
        simp only [Nat.lt_irrefl, if_false, if_true, Option.some.injEq, ← Constant.slots_eq_two_iff]
        simp [Nat.not_lt.2 (Nat.le_succ pool.slots)]
      · have hlt : ¬ i < pool.slots := by omega
        have hsucc : ¬ i + 1 < pool.slots := by omega
        simp only [hlt, hsucc, hi, if_false, Nat.add_right_cancel_iff, false_and,
          Nat.ne_of_gt hgt, reduceCtorEq, false_iff]
        split <;> simp
  · rw [firstIndex_append, ← h.lookup_iff, ← h.lookup_eq_none_iff, lookup_append,
      Std.HashMap.getElem?_insertIfNew]
    simp only [beq_iff_eq, Std.HashMap.mem_iff_isSome_getElem?, Option.not_isSome_iff_eq_none]
    by_cases hnew : constant = other ∧ pool.lookup[constant]? = none
    · obtain ⟨rfl, hnone⟩ := hnew
      rw [if_pos ⟨rfl, hnone⟩, hnone]
      simp only [Option.some.injEq, reduceCtorEq, false_or, and_true]
      rw [← UInt16.toNat_inj, hlast, eq_comm]
    · rw [if_neg hnew]
      exact (or_iff_left fun h => hnew ⟨h.2.1.symm, h.2.2⟩).symm

/-! ## Histories -/

theorem new_represented : new.Represented := by
  refine ⟨rfl, fun i => by cases i <;> simp [new], by decide, fun {constant index} => ?_⟩
  rw [lookup_new, Std.HashMap.getElem?_empty]
  constructor
  · intro h
    cases h
  · intro h
    have hlt : index.toNat < 1 := toNat_lt_slots h.1
    have hget := h.1
    simp [get?, new, Nat.lt_one_iff.1 hlt] at hget

theorem Represented.foldl_append {constants : List Constant} (h : pool.Represented)
    (hroom : (constants.foldl Pool.append pool).slots ≤ maxSlots) :
    (constants.foldl Pool.append pool).Represented := by
  induction constants generalizing pool with
  | nil => exact h
  | cons constant rest ih =>
      refine ih (h.append ?_) hroom
      rw [slots_foldl_append, List.map_cons, List.sum_cons] at hroom
      omega

theorem Storable.represented (h : pool.Storable) : pool.Represented := by
  have hle := h.slots_le
  rw [h.filled] at hle ⊢
  exact new_represented.foldl_append hle

/-- What adding a constant answers and leaves: the first index of the constant in the same pool, the
old number of slots in a longer pool, or a fault in the same pool. -/
inductive Adds (pool : Pool) (constant : Constant) : Except Fault UInt16 × Pool → Prop
  | found {index : UInt16} (first : pool.FirstIndex constant index) :
      Adds pool constant (.ok index, pool)
  | appended {index : UInt16} {left : Pool} (lacks : pool.Lacks constant)
      (last : index.toNat = pool.slots) (first : left.FirstIndex constant index)
      (room : left.slots = pool.slots + constant.slots) : Adds pool constant (.ok index, left)
  | tooLong (lacks : pool.Lacks constant) (long : maxTextLength < constant.textLength) :
      Adds pool constant (.error (.malformed (.utf8TooLong constant.textLength)), pool)
  | full (lacks : pool.Lacks constant) (full : maxSlots < pool.slots + constant.slots) :
      Adds pool constant (.error .constantPoolOverflow, pool)

theorem Represented.adds (h : pool.Represented) (constant : Constant) :
    pool.Adds constant (add constant pool) := by
  cases hlookup : pool.lookup[constant]? with
  | some index =>
      rw [add_of_present hlookup]
      exact .found (h.lookup_iff.1 hlookup)
  | none =>
      have hlacks := h.lookup_eq_none_iff.1 hlookup
      have hlast : (UInt16.ofNat pool.slots).toNat = pool.slots := toNat_count h.slots_le
      rw [add_of_absent hlookup]
      split
      · exact .tooLong hlacks ‹_›
      split
      · exact .full hlacks ‹_›
      · exact .appended hlacks hlast (firstIndex_append.2 (.inr ⟨hlast, rfl, hlacks⟩))
          (slots_append pool constant)

theorem add_keeps_represented (constant : Constant) : (add constant).Keeps Represented :=
  add_keeps fun _ h _ hroom => h.append hroom

theorem Built.represented (h : pool.Built) : pool.Represented := by
  induction h with
  | new => exact new_represented
  | ofBytes h => exact (ofBytes_eq_ok_iff.1 h).1.represented
  | add _ addition ih => exact addition.edit_keeps (fun c _ => add_keeps_represented c) _ ih

/-- A pool with a history has the layout of a constant pool and states its number of slots; no
addition moves what it holds, and adding a constant finds it, puts it at the end or does nothing. -/
theorem layout_kept (h : pool.Built) :
    pool.Represented ∧ pool.count.toNat = pool.slots ∧
    (∀ addition : Addition, (addition.edit pool).2.Represented ∧
      (addition.edit pool).2.Extends pool) ∧
    ∀ constant, pool.Adds constant (add constant pool) :=
  ⟨h.represented, toNat_count h.represented.slots_le,
    fun addition => ⟨(h.add addition).represented, (addition.edit_sound h.sound).2⟩,
    h.represented.adds⟩

/-- A stored pool of a wide number and the same text twice. -/
def doubledData : Bytes := [0, 5, 5, 0, 0, 0, 0, 0, 0, 0, 7, 1, 0, 1, 97, 1, 0, 1, 97]

def doubledPool : Pool := ((new.append (.long 7)).append (.utf8 "a")).append (.utf8 "a")

theorem doubledPool_layout_kept :
    ofBytes doubledData = .ok doubledPool ∧ doubledPool.Represented ∧
    doubledPool.count.toNat = doubledPool.slots ∧
    (∀ addition : Addition, (addition.edit doubledPool).2.Represented ∧
      (addition.edit doubledPool).2.Extends doubledPool) ∧
    ∀ constant, doubledPool.Adds constant (add constant doubledPool) := by
  have hread : ofBytes doubledData = .ok doubledPool := rfl
  exact ⟨hread, layout_kept (.ofBytes hread)⟩

end Pool

end CallProbe
