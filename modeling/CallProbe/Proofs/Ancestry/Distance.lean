import CallProbe.Proofs.Ancestry.Assignability
import Mathlib.Order.Lattice.Nat

/-!
# The order of ancestors

A declared type is resolved level by level: the types that its declaration names come first, then
those that their declarations name. A search that is in the middle of a level has seen everything
nearer, and whatever is new in its queue is as far away as the level says, or one step further.
So each ancestor is found at its shortest distance, and nearer ancestors are found first.
-/

namespace CallProbe.Hierarchy

variable {hierarchy : Hierarchy} {name target : String} {seen queue front back : List String}
  {steps : Nat}

/-! ### Distances -/

/-- What declarations lead to in exactly so many steps, with repetitions. -/
def above (hierarchy : Hierarchy) (name : String) : Nat → List String
  | 0 => [name]
  | steps + 1 => (hierarchy.above name steps).flatMap hierarchy.supertypes

theorem mem_above_succ {supertype : String} (h : target ∈ hierarchy.above name steps)
    (hsupertype : supertype ∈ hierarchy.supertypes target) :
    supertype ∈ hierarchy.above name (steps + 1) :=
  List.mem_flatMap.2 ⟨target, h, hsupertype⟩

theorem reaches_iff_above :
    hierarchy.Reaches name target ↔ ∃ steps, target ∈ hierarchy.above name steps := by
  constructor
  · intro h
    induction h with
    | refl => exact ⟨0, List.mem_cons_self⟩
    | tail _ hsupertype ih =>
        rcases ih with ⟨steps, hsteps⟩
        exact ⟨steps + 1, mem_above_succ hsteps hsupertype⟩
  · intro h
    rcases h with ⟨steps, hsteps⟩
    induction steps generalizing target with
    | zero =>
        rw [List.mem_singleton.1 hsteps]
        exact .refl
    | succ steps ih =>
        rcases List.mem_flatMap.1 hsteps with ⟨middle, hmiddle, hsupertype⟩
        exact (ih hmiddle).tail hsupertype

/-- The least number of steps that lead from a type to one that it leads to. -/
noncomputable def distance (hierarchy : Hierarchy) (name target : String) : Nat :=
  sInf {steps | target ∈ hierarchy.above name steps}

theorem distance_le (h : target ∈ hierarchy.above name steps) :
    hierarchy.distance name target ≤ steps := Nat.sInf_le h

theorem mem_above_distance (h : hierarchy.Reaches name target) :
    target ∈ hierarchy.above name (hierarchy.distance name target) :=
  Nat.sInf_mem (reaches_iff_above.1 h)

/-! ### Levels of a search -/

/-- A search that has gone through all nearer types and is now among those that are so many steps
away: `front` is what is left of them, `back` is one step further. -/
structure Levelled (hierarchy : Hierarchy) (name : String) (seen front back : List String)
    (steps : Nat) : Prop where
  front_level : ∀ target ∈ front, target ∈ hierarchy.above name steps
  back_level : ∀ target ∈ back, target ∈ hierarchy.above name (steps + 1)
  nearer : ∀ fewer < steps, ∀ target ∈ hierarchy.above name fewer, target ∈ seen
  level : ∀ target ∈ hierarchy.above name steps, target ∈ seen ∨ target ∈ front
  owed : ∀ other ∈ seen, ∀ supertype ∈ hierarchy.supertypes other,
    supertype ∈ seen ∨ supertype ∈ front ++ back

/-- A search starts behind the level of the type itself. -/
theorem levelled_start : hierarchy.Levelled name [name] [] (hierarchy.supertypes name) 0 where
  front_level := by simp
  back_level _ htarget := mem_above_succ List.mem_cons_self htarget
  nearer := by simp
  level _ htarget := .inl htarget
  owed other hother supertype hsupertype := by
    rw [List.mem_singleton.1 hother] at hsupertype
    exact .inr hsupertype

/-- What is one step further is the next level. -/
theorem Levelled.next (h : hierarchy.Levelled name seen [] back steps) :
    hierarchy.Levelled name seen back [] (steps + 1) := by
  have hlevel : ∀ target ∈ hierarchy.above name steps, target ∈ seen := by
    intro target htarget
    exact (h.level target htarget).resolve_right List.not_mem_nil
  refine ⟨h.back_level, by simp, ?_, ?_, by simpa using h.owed⟩
  · intro fewer hfewer target htarget
    rcases Nat.lt_succ_iff_lt_or_eq.1 hfewer with hless | rfl
    · exact h.nearer fewer hless target htarget
    · exact hlevel target htarget
  · intro target htarget
    rcases List.mem_flatMap.1 htarget with ⟨middle, hmiddle, hsupertype⟩
    exact h.owed middle (hlevel middle hmiddle) target hsupertype

/-- A type that was seen before is passed over. -/
theorem Levelled.skip {next : String} (hseen : next ∈ seen)
    (h : hierarchy.Levelled name seen (next :: front) back steps) :
    hierarchy.Levelled name seen front back steps where
  front_level := (List.forall_mem_cons.1 h.front_level).2
  back_level := h.back_level
  nearer := h.nearer
  level target htarget := by
    rcases h.level target htarget with hold | hnew
    · exact .inl hold
    · rcases List.mem_cons.1 hnew with rfl | hnew
      · exact .inl hseen
      · exact .inr hnew
  owed other hother supertype hsupertype := by
    rcases h.owed other hother supertype hsupertype with hold | hnew
    · exact .inl hold
    · rcases List.mem_cons.1 hnew with rfl | hnew
      · exact .inl hseen
      · exact .inr hnew

/-- A new type leaves its supertypes to the next level. -/
theorem Levelled.visit {next : String}
    (h : hierarchy.Levelled name seen (next :: front) back steps) :
    hierarchy.Levelled name (next :: seen) front (back ++ hierarchy.supertypes next) steps := by
  have hnext : next ∈ hierarchy.above name steps := h.front_level next List.mem_cons_self
  refine ⟨(List.forall_mem_cons.1 h.front_level).2, ?_, ?_, ?_, ?_⟩
  · intro target htarget
    rcases List.mem_append.1 htarget with hold | hsupertype
    · exact h.back_level target hold
    · exact mem_above_succ hnext hsupertype
  · intro fewer hfewer target htarget
    exact List.mem_cons_of_mem next (h.nearer fewer hfewer target htarget)
  · intro target htarget
    rcases h.level target htarget with hold | hnew
    · exact .inl (List.mem_cons_of_mem next hold)
    · rcases List.mem_cons.1 hnew with rfl | hnew
      · exact .inl List.mem_cons_self
      · exact .inr hnew
  · intro other hother supertype hsupertype
    rw [← List.append_assoc, List.mem_append, List.mem_cons]
    rcases List.mem_cons.1 hother with rfl | hother
    · exact .inr (.inr hsupertype)
    rcases h.owed other hother supertype hsupertype with hold | hnew
    · exact .inl (.inr hold)
    · rcases List.mem_cons.1 hnew with rfl | hnew
      · exact .inl (.inl rfl)
      · exact .inr (.inl hnew)

theorem Levelled.le_distance (h : hierarchy.Levelled name seen front back steps)
    (hreaches : hierarchy.Reaches name target) (hfresh : target ∉ seen) :
    steps ≤ hierarchy.distance name target := by
  by_contra hless
  exact hfresh (h.nearer _ (Nat.lt_of_not_le hless) target (mem_above_distance hreaches))

/-! ### What a search finds -/

theorem not_mem_seen_of_mem (h : target ∈ hierarchy.ancestorsFrom seen queue) : target ∉ seen := by
  fun_induction ancestorsFrom hierarchy seen queue with
  | case1 => cases h
  | case2 seen name queue _ ih => exact ih h
  | case3 seen name queue hfresh ih =>
      rcases List.mem_cons.1 h with rfl | h
      · exact hfresh
      · exact fun hseen => ih h (List.mem_cons_of_mem name hseen)

theorem nodup_ancestorsFrom (hierarchy : Hierarchy) (seen queue : List String) :
    (hierarchy.ancestorsFrom seen queue).Nodup := by
  fun_induction ancestorsFrom hierarchy seen queue with
  | case1 => exact List.nodup_nil
  | case2 _ _ _ _ ih => exact ih
  | case3 seen name queue _ ih =>
      exact List.nodup_cons.2 ⟨fun h => not_mem_seen_of_mem h List.mem_cons_self, ih⟩

/-- The first of a queue is in the level of the search, or the next level starts with it. -/
theorem Levelled.exists_front {next : String}
    (h : hierarchy.Levelled name seen front back steps) (hqueue : front ++ back = next :: queue) :
    ∃ front back steps, hierarchy.Levelled name seen (next :: front) back steps ∧
      queue = front ++ back := by
  cases front with
  | nil =>
      rw [List.nil_append] at hqueue
      subst hqueue
      exact ⟨queue, [], steps + 1, h.next, (List.append_nil queue).symm⟩
  | cons first front =>
      rw [List.cons_append] at hqueue
      obtain ⟨rfl, rfl⟩ := List.cons.inj hqueue
      exact ⟨front, back, steps, h, rfl⟩

/-- A search finds nearer types first. -/
theorem Levelled.pairwise_distance (h : hierarchy.Levelled name seen front back steps)
    (hreaches : ∀ target ∈ hierarchy.ancestorsFrom seen queue, hierarchy.Reaches name target)
    (hqueue : front ++ back = queue) :
    (hierarchy.ancestorsFrom seen queue).Pairwise fun nearer further =>
      hierarchy.distance name nearer ≤ hierarchy.distance name further := by
  fun_induction ancestorsFrom hierarchy seen queue generalizing front back steps with
  | case1 => exact .nil
  | case2 seen next queue hseen ih =>
      obtain ⟨front, back, steps, hlevelled, rfl⟩ := h.exists_front hqueue
      exact ih (hlevelled.skip hseen) hreaches rfl
  | case3 seen next queue hfresh ih =>
      obtain ⟨front, back, steps, hlevelled, rfl⟩ := h.exists_front hqueue
      have hrest := (List.forall_mem_cons.1 hreaches).2
      refine List.pairwise_cons.2 ⟨?_, ih hlevelled.visit hrest (List.append_assoc ..).symm⟩
      intro further hfurther
      have hnew : further ∉ seen := by
        intro hseen
        exact not_mem_seen_of_mem hfurther (List.mem_cons_of_mem next hseen)
      calc hierarchy.distance name next
          ≤ steps := distance_le (hlevelled.front_level next List.mem_cons_self)
        _ ≤ hierarchy.distance name further := hlevelled.le_distance (hrest further hfurther) hnew

/-! ### Resolved types -/

/-- What declarations lead to from a type in one step or more. -/
def LeadsUp (hierarchy : Hierarchy) : String → String → Prop :=
  Relation.TransGen fun name supertype => supertype ∈ hierarchy.supertypes name

theorem leadsUp_iff_reaches (hne : target ≠ name) :
    hierarchy.LeadsUp name target ↔ hierarchy.Reaches name target := by
  unfold LeadsUp Reaches
  rw [Relation.reflTransGen_iff_eq_or_transGen, or_iff_right hne]

theorem mem_ancestorsFrom_iff :
    target ∈ hierarchy.ancestorsFrom [name] (hierarchy.supertypes name) ↔
      target ≠ name ∧ hierarchy.LeadsUp name target := by
  constructor
  · intro h
    have hne : target ≠ name := fun heq => not_mem_seen_of_mem h (List.mem_singleton.2 heq)
    exact ⟨hne, (leadsUp_iff_reaches hne).2 (covered_iff_reaches.1 (.inr h))⟩
  · intro h
    have hreaches := (leadsUp_iff_reaches h.1).1 h.2
    exact (covered_iff_reaches.2 hreaches).resolve_left (mt List.mem_singleton.1 h.1)

/-- A declared type is always resolved, whatever the declarations are. Its ancestors are the types
that its declaration leads to, the type itself left out, each once and in the order of their
shortest distances. -/
theorem resolve_nearest_first (hdeclared : hierarchy.find? name ≠ none) :
    ∃ ancestors, (hierarchy.resolve name).outcome = .ok { name, ancestors } ∧
      (∀ target, target ∈ ancestors ↔ target ≠ name ∧ hierarchy.LeadsUp name target) ∧
      ancestors.Nodup ∧
      ancestors.Pairwise fun nearer further =>
        hierarchy.distance name nearer ≤ hierarchy.distance name further := by
  obtain ⟨declaration, hfind⟩ := Option.ne_none_iff_exists'.1 hdeclared
  refine ⟨hierarchy.ancestorsFrom [name] (hierarchy.supertypes name), ?_,
    fun _ => mem_ancestorsFrom_iff, nodup_ancestorsFrom .., ?_⟩
  · simp only [resolve, hfind, supertypes_of_find? hfind]
  · apply levelled_start.pairwise_distance _ rfl
    intro target htarget
    exact covered_iff_reaches.1 (.inr htarget)

/-! ### Types that extend each other -/

/-- Two classes that extend each other; both lead to an interface without declaration, one of them
only over another interface. -/
def knot : Hierarchy :=
  ((({} : Hierarchy).declare "app/First" ⟨some "app/Second", ["app/Shape"]⟩).declare
    "app/Second" ⟨some "app/First", ["app/Shape", "app/Missing"]⟩).declare
    "app/Shape" ⟨none, ["app/Missing"]⟩

private theorem find?_first : knot.find? "app/First" =
    some ⟨some "app/Second", ["app/Shape"]⟩ := rfl

private theorem find?_second : knot.find? "app/Second" =
    some ⟨some "app/First", ["app/Shape", "app/Missing"]⟩ := rfl

private theorem find?_shape : knot.find? "app/Shape" = some ⟨none, ["app/Missing"]⟩ := rfl

private theorem find?_missing : knot.find? "app/Missing" = none := rfl

theorem resolve_first : (knot.resolve "app/First").outcome =
    .ok ⟨"app/First", ["app/Second", "app/Shape", "app/Missing"]⟩ := by
  simp [resolve, ancestorsFrom, supertypes, Declaration.supertypes, find?_first, find?_second,
    find?_shape, find?_missing]

theorem first_nearest_first :
    knot.find? "app/First" ≠ none ∧
      ∃ ancestors, (knot.resolve "app/First").outcome = .ok { name := "app/First", ancestors } ∧
        ancestors = ["app/Second", "app/Shape", "app/Missing"] ∧
        (∀ target, target ∈ ancestors ↔
          target ≠ "app/First" ∧ knot.LeadsUp "app/First" target) ∧
        ancestors.Nodup ∧
        ancestors.Pairwise fun nearer further =>
          knot.distance "app/First" nearer ≤ knot.distance "app/First" further := by
  have hdeclared : knot.find? "app/First" ≠ none := by simp [find?_first]
  obtain ⟨ancestors, hresolve, hrest⟩ := resolve_nearest_first hdeclared
  have hsame := Except.ok.inj (hresolve.symm.trans resolve_first)
  exact ⟨hdeclared, ancestors, hresolve, congrArg ResolvedType.ancestors hsame, hrest⟩

end CallProbe.Hierarchy
