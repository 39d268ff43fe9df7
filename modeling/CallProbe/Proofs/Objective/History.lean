import CallProbe.Proofs.Objective.Registration
import Mathlib.Data.List.Nodup

/-!
# Stores and their histories

What a store answers depends on the identifiers that were registered with it, in their
order. The array of identifiers and the numbers they are looked up by are updated apart
from each other; `Numbered` is what keeps the two together.
-/

namespace CallProbe.ObjectiveStore

variable {store : ObjectiveStore}

/-- The numbers say where the identifiers stand. -/
def Numbered (store : ObjectiveStore) : Prop :=
  ∀ (id : String) (number : Nat),
    store.indexOf? id = some number ↔ store.ids[number]? = some id

theorem contains_eq_isSome_indexOf? (id : String) :
    store.contains id = (store.indexOf? id).isSome :=
  Std.HashMap.contains_eq_isSome_getElem?

/-! ## One registration -/

theorem register_of_not_contains {id : String} (h : store.contains id = false) :
    store.register id =
      (true, { ids := store.ids.push id, index := store.index.insert id store.ids.size }) := by
  unfold register
  rw [← contains, h, if_neg Bool.false_ne_true]

/-- An identifier is new if it is not known. -/
theorem register_fst (id : String) : (store.register id).1 = !store.contains id := by
  cases h : store.contains id with
  | true => rw [register_of_contains h]; rfl
  | false => rw [register_of_not_contains h]; rfl

theorem indexOf?_register_of_not_contains {id : String} (h : store.contains id = false)
    (other : String) :
    (store.register id).2.indexOf? other =
      if id = other then some store.ids.size else store.indexOf? other := by
  rw [register_of_not_contains h]
  simp [indexOf?, Std.HashMap.getElem?_insert]

/-- A number that was given stays. -/
theorem indexOf?_register {known : String} {number : Nat} (h : store.indexOf? known = some number)
    (id : String) : (store.register id).2.indexOf? known = some number := by
  cases hid : store.contains id with
  | true => rwa [register_of_contains hid]
  | false =>
      have hne : id ≠ known := by
        intro heq
        rw [heq, contains_eq_isSome_indexOf?, h] at hid
        cases hid
      rw [indexOf?_register_of_not_contains hid, if_neg hne, h]

theorem empty_numbered : empty.Numbered := by
  intro id number
  simp [indexOf?, empty]

theorem Numbered.register (hn : store.Numbered) (id : String) : (store.register id).2.Numbered := by
  cases h : store.contains id with
  | true => rwa [register_of_contains h]
  | false =>
      have hfresh (number : Nat) : store.ids[number]? ≠ some id := by
        intro hget
        rw [contains_eq_isSome_indexOf?, (hn id number).2 hget] at h
        cases h
      intro other number
      rw [indexOf?_register_of_not_contains h, register_of_not_contains h, Array.getElem?_push]
      by_cases heq : id = other
      · subst heq
        by_cases hlast : number = store.ids.size
        · simp [hlast]
        · simp [hlast, Ne.symm hlast, hfresh number]
      · rw [if_neg heq, hn other number]
        by_cases hlast : number = store.ids.size
        · simp [hlast, heq]
        · simp [hlast]

/-- The count and the array grow together. -/
theorem length_register (store : ObjectiveStore) (id : String) :
    (store.register id).2.length + store.ids.size =
      store.length + (store.register id).2.ids.size := by
  cases h : store.contains id with
  | true => rw [register_of_contains h]
  | false =>
      have hmem : id ∉ store.index := by
        rw [← Std.HashMap.contains_iff_mem, ← contains, h]
        exact Bool.false_ne_true
      rw [register_of_not_contains h, length, length, Std.HashMap.size_insert, if_neg hmem,
        Array.size_push]
      omega

/-! ## Many registrations -/

theorem Numbered.registerAll (hn : store.Numbered) (ids : List String) :
    (store.registerAll ids).Numbered := by
  induction ids generalizing store with
  | nil => exact hn
  | cons id ids ih => exact ih (hn.register id)

theorem indexOf?_registerAll {known : String} {number : Nat}
    (h : store.indexOf? known = some number) (ids : List String) :
    (store.registerAll ids).indexOf? known = some number := by
  induction ids generalizing store with
  | nil => exact h
  | cons id ids ih => exact ih (indexOf?_register h id)

theorem length_registerAll (store : ObjectiveStore) (ids : List String) :
    (store.registerAll ids).length + store.ids.size =
      store.length + (store.registerAll ids).ids.size := by
  induction ids generalizing store with
  | nil => rfl
  | cons id ids ih =>
      have hstep : store.registerAll (id :: ids) = (store.register id).2.registerAll ids := rfl
      have hfirst := length_register store id
      have hrest := ih (store.register id).2
      rw [hstep]
      omega

theorem contains_registerAll (ids : List String) (id : String) :
    (store.registerAll ids).contains id = (store.contains id || ids.contains id) := by
  induction ids generalizing store with
  | nil => simp [registerAll]
  | cons first ids ih =>
      have hstep : store.registerAll (first :: ids) = (store.register first).2.registerAll ids :=
        rfl
      rw [hstep, ih, contains_register, List.contains_cons, Bool.or_assoc, Bool.beq_comm]

/-- Identifiers that are all known change nothing. -/
theorem registerAll_of_known {ids : List String} (h : ∀ id ∈ ids, store.contains id = true) :
    store.registerAll ids = store := by
  induction ids with
  | nil => rfl
  | cons id ids ih =>
      obtain ⟨hid, hids⟩ := List.forall_mem_cons.1 h
      have hstep : store.registerAll (id :: ids) = (store.register id).2.registerAll ids := rfl
      rw [hstep, register_of_contains hid]
      exact ih hids

/-- Whatever was registered in between, registering the same identifiers again changes nothing. -/
theorem registerAll_again (ids between : List String) :
    ((store.registerAll ids).registerAll between).registerAll ids =
      (store.registerAll ids).registerAll between := by
  apply registerAll_of_known
  intro id hid
  rw [contains_registerAll, contains_registerAll, List.contains_iff_mem.2 hid]
  simp

/-! ## The order of registrations -/

theorem nodup_eraseDups (ids : List String) : ids.eraseDups.Nodup := by
  cases ids with
  | nil => simp
  | cons id ids =>
      rw [List.eraseDups_cons, List.nodup_cons, List.mem_eraseDups]
      exact ⟨by simp, nodup_eraseDups _⟩
termination_by ids.length
decreasing_by exact Nat.lt_succ_of_le (List.length_filter_le _ _)

theorem perm_eraseDups {ids others : List String} (h : ids.Perm others) :
    ids.eraseDups.Perm others.eraseDups := by
  refine (List.perm_ext_iff_of_nodup (nodup_eraseDups ids) (nodup_eraseDups others)).2 ?_
  intro id
  rw [List.mem_eraseDups, List.mem_eraseDups, h.mem_iff]

/-- Two stores that tell the same identifiers apart from all others, if perhaps by other numbers. -/
structure SameSet (store other : ObjectiveStore) : Prop where
  contains : ∀ id, store.contains id = other.contains id
  length : store.length = other.length
  ids : store.ids.toList.Perm other.ids.toList

/-- In whatever order identifiers are registered, they make the same set. -/
theorem registerAll_sameSet {ids others : List String} (h : ids.Perm others) :
    (store.registerAll ids).SameSet (store.registerAll others) := by
  have hids : (store.registerAll ids).ids.toList.Perm (store.registerAll others).ids.toList := by
    rw [ids_registerAll, ids_registerAll]
    exact (perm_eraseDups (h.filter _)).append_left _
  refine ⟨?_, ?_, hids⟩
  · intro id
    rw [contains_registerAll, contains_registerAll, h.contains_eq]
  · have hsize := hids.length_eq
    rw [Array.length_toList, Array.length_toList] at hsize
    have hleft := length_registerAll store ids
    have hright := length_registerAll store others
    omega

/-! ## Histories of a fresh store -/

theorem ids_registerAll_empty (history : List String) :
    (empty.registerAll history).ids.toList = history.eraseDups := by
  have hnew : history.filter (!empty.contains ·) = history :=
    List.filter_eq_self.2 fun id _ => by simp [contains, empty]
  rw [ids_registerAll, hnew]
  rfl

theorem contains_registerAll_empty (history : List String) (id : String) :
    (empty.registerAll history).contains id = true ↔ id ∈ history := by
  have hnone : empty.contains id = false := by simp [contains, empty]
  rw [contains_registerAll, hnone, Bool.false_or, List.contains_iff_mem]

/-- What `store` has to tell after the identifiers of `history` were registered, one after the
other and nothing else. -/
structure Recounts (store : ObjectiveStore) (history : List String) : Prop where
  /-- Every identifier stands where it came up first. -/
  ids : store.ids.toList = history.eraseDups
  nodup : store.ids.toList.Nodup
  length : store.length = store.ids.size
  contains_iff : ∀ id, store.contains id = true ↔ id ∈ history
  indexOf?_iff : ∀ id number, store.indexOf? id = some number ↔ store.ids[number]? = some id
  /-- Each registration was told whether it was the first of its identifier. -/
  fresh : ∀ front id back, history = front ++ id :: back →
    ((empty.registerAll front).register id).1 = decide (id ∉ front)
  /-- A number that has been given is not given up later. -/
  lasting : ∀ front back id number, history = front ++ back →
    (empty.registerAll front).indexOf? id = some number → store.indexOf? id = some number
  /-- Another order makes the same set. -/
  reordered : ∀ other, other.Perm history → (empty.registerAll other).SameSet store

/-- A store recounts its history. -/
theorem registerAll_recounts (history : List String) :
    (empty.registerAll history).Recounts history where
  ids := ids_registerAll_empty history
  nodup := by
    rw [ids_registerAll_empty]
    exact nodup_eraseDups history
  length := by
    have hgrown := length_registerAll empty history
    have hzero : empty.length = 0 ∧ empty.ids.size = 0 := by simp [length, empty]
    omega
  contains_iff := contains_registerAll_empty history
  indexOf?_iff := empty_numbered.registerAll history
  fresh := by
    intro front id back _
    rw [register_fst, ← Bool.coe_iff_coe]
    simp [← contains_registerAll_empty]
  lasting := by
    intro front back id number hsplit hnumber
    rw [hsplit, registerAll_append]
    exact indexOf?_registerAll hnumber back
  reordered := fun _ h => registerAll_sameSet h

end CallProbe.ObjectiveStore
