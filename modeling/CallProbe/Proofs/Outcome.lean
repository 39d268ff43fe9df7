import CallProbe.Fault
import Mathlib.Data.List.Forall2

/-!
# Outcomes of computations

What a computation that may fail went through when it succeeded, and which part of it gave the
fault when it did not.
-/

namespace CallProbe.Outcome

variable {α β : Type}

theorem bind_eq_ok_iff {result : Except Fault α} {next : α → Except Fault β} {b : β} :
    (result >>= next) = .ok b ↔ ∃ a, result = .ok a ∧ next a = .ok b := by
  cases result <;> simp [bind, Except.bind]

@[simp] theorem pure_eq_ok_iff {a b : α} : (pure a : Except Fault α) = .ok b ↔ b = a := by
  simp [pure, Except.pure, eq_comm]

@[simp] theorem throw_ne_ok {fault : Fault} {a : α} : (throw fault : Except Fault α) ≠ .ok a := by
  intro h
  cases h

theorem map_eq_ok_iff {result : Except Fault α} {f : α → β} {b : β} :
    result.map f = .ok b ↔ ∃ a, result = .ok a ∧ b = f a := by
  cases result <;> simp [Except.map, eq_comm]

theorem fmap_eq_ok_iff {result : Except Fault α} {f : α → β} {b : β} :
    f <$> result = .ok b ↔ ∃ a, result = .ok a ∧ b = f a := map_eq_ok_iff

theorem mapM_eq_ok_iff {f : α → Except Fault β} {items : List α} {results : List β} :
    items.mapM f = .ok results ↔ List.Forall₂ (fun item result => f item = .ok result) items
      results := by
  induction items generalizing results with
  | nil => simp [List.mapM_nil, List.forall₂_nil_left_iff]
  | cons item rest ih =>
      simp only [List.mapM_cons, bind_eq_ok_iff, pure_eq_ok_iff, ih,
        List.forall₂_cons_left_iff]
      constructor
      · intro h
        rcases h with ⟨result, hresult, others, hothers, rfl⟩
        exact ⟨result, others, hresult, hothers, rfl⟩
      · intro h
        rcases h with ⟨result, others, hresult, hothers, rfl⟩
        exact ⟨result, hresult, others, hothers, rfl⟩

/-- The same where success says exactly what the result is. -/
theorem mapM_eq_map_iff {f : α → Except Fault β} {valid : α → Prop} {g : α → β}
    (h : ∀ item result, f item = .ok result ↔ valid item ∧ result = g item) {items : List α}
    {results : List β} :
    items.mapM f = .ok results ↔ (∀ item ∈ items, valid item) ∧ results = items.map g := by
  induction items generalizing results with
  | nil => simp [List.mapM_nil]
  | cons item rest ih =>
      simp only [List.mapM_cons, bind_eq_ok_iff, pure_eq_ok_iff, ih, h, List.forall_mem_cons,
        List.map_cons]
      constructor
      · intro hok
        rcases hok with ⟨_, ⟨hitem, rfl⟩, _, ⟨hrest, rfl⟩, rfl⟩
        exact ⟨⟨hitem, hrest⟩, rfl⟩
      · intro hok
        rcases hok with ⟨⟨hitem, hrest⟩, rfl⟩
        exact ⟨_, ⟨hitem, rfl⟩, _, ⟨hrest, rfl⟩, rfl⟩

/-! ## Failures -/

theorem bind_eq_error_iff {result : Except Fault α} {next : α → Except Fault β} {fault : Fault} :
    (result >>= next) = .error fault ↔
      result = .error fault ∨ ∃ a, result = .ok a ∧ next a = .error fault := by
  cases result <;> simp [bind, Except.bind]

@[simp] theorem pure_ne_error {fault : Fault} {a : α} :
    (pure a : Except Fault α) ≠ .error fault := by
  intro h
  cases h

@[simp] theorem throw_eq_error_iff {fault cause : Fault} :
    (throw fault : Except Fault α) = .error cause ↔ fault = cause := by
  simp [throw, throwThe, MonadExceptOf.throw]

theorem fmap_eq_error_iff {result : Except Fault α} {f : α → β} {fault : Fault} :
    f <$> result = .error fault ↔ result = .error fault := by
  cases result <;> simp [Functor.map, Except.map]

theorem exists_of_mapM_eq_error {f : α → Except Fault β} {items : List α} {fault : Fault}
    (h : items.mapM f = .error fault) : ∃ item ∈ items, f item = .error fault := by
  induction items with
  | nil => cases h
  | cons item rest ih =>
      rw [List.mapM_cons, bind_eq_error_iff] at h
      rcases h with hitem | ⟨result, -, hrest⟩
      · exact ⟨item, List.mem_cons_self, hitem⟩
      · rcases bind_eq_error_iff.1 hrest with hfail | ⟨_, -, hpure⟩
        · obtain ⟨other, hother, hfault⟩ := ih hfail
          exact ⟨other, List.mem_cons_of_mem _ hother, hfault⟩
        · cases hpure

end CallProbe.Outcome
