import CallProbe.Objective.Store

/-!
# Registering identifiers

Identifiers that are known already change nothing; the others are appended in the order
in which they first occur.
-/

namespace CallProbe.ObjectiveStore

variable {store : ObjectiveStore}

/-- A known identifier changes nothing. -/
theorem register_of_contains {id : String} (h : store.contains id = true) :
    store.register id = (false, store) := by
  unfold register
  exact if_pos h

theorem ids_register_of_not_contains {id : String} (h : store.contains id = false) :
    (store.register id).2.ids.toList = store.ids.toList ++ [id] := by
  unfold register
  rw [if_neg (by rw [← contains, h]; decide)]
  simp

theorem contains_register (id other : String) :
    (store.register id).2.contains other = (store.contains other || id == other) := by
  cases h : store.contains id with
  | true =>
      rw [register_of_contains h]
      by_cases heq : id = other
      · rw [← heq, h]
        rfl
      · simp [heq]
  | false =>
      unfold register
      rw [if_neg (by rw [← contains, h]; decide)]
      simp only [contains, Std.HashMap.contains_insert]
      rw [Bool.or_comm]

/-- Registering a list appends what is new in it, in order and each once. -/
theorem ids_registerAll (ids : List String) :
    (store.registerAll ids).ids.toList =
      store.ids.toList ++ (ids.filter (!store.contains ·)).eraseDups := by
  induction ids generalizing store with
  | nil => simp [registerAll]
  | cons id ids ih =>
      have hstep : store.registerAll (id :: ids) = (store.register id).2.registerAll ids := rfl
      rw [hstep, ih]
      cases h : store.contains id with
      | true =>
          rw [register_of_contains h, List.filter_cons_of_neg (by rw [h]; decide)]
      | false =>
          have hrest : ids.filter (!(store.register id).2.contains ·) =
              (ids.filter (!store.contains ·)).filter fun other => !other == id := by
            rw [List.filter_filter]
            refine List.filter_congr fun other _ => ?_
            rw [contains_register, Bool.not_or, Bool.and_comm, Bool.beq_comm]
          rw [ids_register_of_not_contains h, List.filter_cons_of_pos (by rw [h]; rfl),
            List.eraseDups_cons, hrest, List.append_assoc, List.singleton_append]

end CallProbe.ObjectiveStore
