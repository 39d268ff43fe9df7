import CallProbe.Ancestry.Hierarchy
import Mathlib.Logic.Relation

/-!
# What a resolved type can be assigned to

The search through the declarations lists what they lead to: what was seen and what is still to
come contains, with a type, its direct supertypes. A type that is assumed is no part of this; the
root class is all it can be assigned to, and only where it is resolved itself.
-/

namespace CallProbe

namespace Hierarchy

variable {hierarchy : Hierarchy} {name target : String} {seen queue : List String}

/-- What declarations lead to from a type, step by step. -/
def Reaches (hierarchy : Hierarchy) : String → String → Prop :=
  Relation.ReflTransGen fun name supertype => supertype ∈ hierarchy.supertypes name

theorem supertypes_of_find? {declaration : Declaration}
    (h : hierarchy.find? name = some declaration) :
    hierarchy.supertypes name = declaration.supertypes := by
  rw [supertypes, h, Option.elim_some]

theorem supertypes_of_undeclared (h : hierarchy.find? name = none) :
    hierarchy.supertypes name = [] := by
  rw [supertypes, h, Option.elim_none]

/-- Without a declaration, a type leads to itself only. -/
theorem reaches_of_undeclared (h : hierarchy.find? name = none) :
    hierarchy.Reaches name target ↔ target = name := by
  constructor
  · intro hreaches
    rcases Relation.ReflTransGen.cases_head hreaches with rfl | ⟨next, hnext, -⟩
    · rfl
    · rw [supertypes_of_undeclared h] at hnext
      cases hnext
  · rintro rfl
    exact .refl

/-! ### The search -/

theorem reaches_of_mem_ancestorsFrom (h : target ∈ hierarchy.ancestorsFrom seen queue) :
    ∃ start ∈ queue, hierarchy.Reaches start target := by
  fun_induction ancestorsFrom hierarchy seen queue with
  | case1 => cases h
  | case2 seen name queue _ ih =>
      rcases ih h with ⟨start, hstart, hreaches⟩
      exact ⟨start, List.mem_cons_of_mem name hstart, hreaches⟩
  | case3 seen name queue _ ih =>
      rcases List.mem_cons.1 h with rfl | h
      · exact ⟨_, List.mem_cons_self, .refl⟩
      rcases ih h with ⟨start, hstart, hreaches⟩
      rcases List.mem_append.1 hstart with hstart | hstart
      · exact ⟨start, List.mem_cons_of_mem name hstart, hreaches⟩
      · exact ⟨name, List.mem_cons_self, .head hstart hreaches⟩

/-- What has been seen, or is found by a search. -/
def Covered (hierarchy : Hierarchy) (seen queue : List String) (name : String) : Prop :=
  name ∈ seen ∨ name ∈ hierarchy.ancestorsFrom seen queue

theorem covered_cons_of_mem (h : name ∈ seen) :
    hierarchy.Covered seen (name :: queue) target ↔ hierarchy.Covered seen queue target := by
  rw [Covered, ancestorsFrom, if_pos h]
  rfl

theorem covered_cons_of_fresh (h : name ∉ seen) :
    hierarchy.Covered seen (name :: queue) target ↔
      hierarchy.Covered (name :: seen) (queue ++ hierarchy.supertypes name) target := by
  rw [Covered, Covered, ancestorsFrom, if_neg h, List.mem_cons, List.mem_cons, or_left_comm,
    or_assoc]

/-- A search that owes the supertypes of what it has seen covers, with a type, its supertypes. -/
theorem covered_supertypes {supertype : String}
    (howed : ∀ name ∈ seen, ∀ supertype ∈ hierarchy.supertypes name,
      supertype ∈ seen ∨ supertype ∈ queue)
    (h : hierarchy.Covered seen queue name) (hsupertype : supertype ∈ hierarchy.supertypes name) :
    hierarchy.Covered seen queue supertype := by
  fun_induction ancestorsFrom hierarchy seen queue with
  | case1 seen =>
      rcases h with h | h
      · rcases howed name h supertype hsupertype with hseen | hqueue
        · exact .inl hseen
        · cases hqueue
      · rw [ancestorsFrom] at h
        cases h
  | case2 seen next queue hseen ih =>
      rw [covered_cons_of_mem hseen] at h ⊢
      refine ih ?_ h
      intro other hother above habove
      rcases howed other hother above habove with hold | hnew
      · exact .inl hold
      rcases List.mem_cons.1 hnew with rfl | hnew
      · exact .inl hseen
      · exact .inr hnew
  | case3 seen next queue hfresh ih =>
      rw [covered_cons_of_fresh hfresh] at h ⊢
      refine ih ?_ h
      intro other hother above habove
      rcases List.mem_cons.1 hother with rfl | hother
      · exact .inr (List.mem_append_right _ habove)
      rcases howed other hother above habove with hold | hnew
      · exact .inl (List.mem_cons_of_mem next hold)
      rcases List.mem_cons.1 hnew with rfl | hnew
      · exact .inl List.mem_cons_self
      · exact .inr (List.mem_append_left _ hnew)

/-- A type and what a search from its supertypes finds are all that it leads to. -/
theorem covered_iff_reaches :
    hierarchy.Covered [name] (hierarchy.supertypes name) target ↔
      hierarchy.Reaches name target := by
  constructor
  · intro h
    rcases h with h | h
    · rw [List.mem_singleton.1 h]
      exact .refl
    · rcases reaches_of_mem_ancestorsFrom h with ⟨start, hstart, hreaches⟩
      exact .head hstart hreaches
  · intro h
    have howed : ∀ other ∈ [name], ∀ supertype ∈ hierarchy.supertypes other,
        supertype ∈ [name] ∨ supertype ∈ hierarchy.supertypes name := by
      intro other hother supertype hsupertype
      rw [List.mem_singleton.1 hother] at hsupertype
      exact .inr hsupertype
    induction h with
    | refl => exact .inl List.mem_cons_self
    | tail _ hstep ih => exact covered_supertypes howed ih hstep

/-! ### Resolved types -/

variable {type : ResolvedType}

/-- A type without a declaration is resolved only if it is assumed. -/
theorem resolve_of_undeclared (h : hierarchy.find? name = none)
    (hresolve : (hierarchy.resolve name).outcome = .ok type) :
    hierarchy.assumes name = true ∧ type = { name, ancestors := [rootClass] } := by
  simp only [resolve, h] at hresolve
  split at hresolve
  · rename_i hassumed
    cases hresolve
    exact ⟨hassumed, rfl⟩
  · cases hresolve

theorem isAssignableTo_iff (hresolve : (hierarchy.resolve name).outcome = .ok type) :
    type.isAssignableTo target = true ↔
      hierarchy.Reaches name target ∨ hierarchy.find? name = none ∧ target = rootClass := by
  rw [ResolvedType.isAssignableTo, List.contains_iff_mem]
  cases hfind : hierarchy.find? name with
  | none =>
      rcases resolve_of_undeclared hfind hresolve with ⟨-, rfl⟩
      simp [ResolvedType.lineage, reaches_of_undeclared hfind]
  | some declaration =>
      simp only [resolve, hfind] at hresolve
      cases hresolve
      rw [← covered_iff_reaches, supertypes_of_find? hfind]
      simp [ResolvedType.lineage, Covered]

/-- Where a chain of assignments breaks. A declared type gains nothing from the root class of an
assumed one, and an assumed type gains nothing from the declaration of the root class. -/
inductive Breaks (hierarchy : Hierarchy) : String → String → String → Prop where
  | below {name middle : String} : hierarchy.find? name ≠ none → hierarchy.find? middle = none →
      ¬ hierarchy.Reaches name rootClass → hierarchy.Breaks name middle rootClass
  | above {name target : String} : hierarchy.find? name = none → target ≠ name →
      target ≠ rootClass → hierarchy.Breaks name rootClass target

/-- Where nothing is assumed, no chain breaks. -/
theorem isAssignableTo_trans_of_strict {first middle last : String} {type type' : ResolvedType}
    (hstrict : hierarchy.assumed = []) (hfirst : (hierarchy.resolve first).outcome = .ok type)
    (hassignable : type.isAssignableTo middle = true)
    (hmiddle : (hierarchy.resolve middle).outcome = .ok type')
    (hassignable' : type'.isAssignableTo last = true) : type.isAssignableTo last = true := by
  have hdeclared {name : String} {type : ResolvedType}
      (hresolve : (hierarchy.resolve name).outcome = .ok type) : hierarchy.find? name ≠ none := by
    intro hundeclared
    have hassumed := (resolve_of_undeclared hundeclared hresolve).1
    simp [assumes, hstrict] at hassumed
  rw [isAssignableTo_iff hfirst] at hassignable ⊢
  rw [isAssignableTo_iff hmiddle] at hassignable'
  have hreaches := hassignable.resolve_right fun h => hdeclared hfirst h.1
  have hreaches' := hassignable'.resolve_right fun h => hdeclared hmiddle h.1
  exact .inl (hreaches.trans hreaches')

/-- A chain of assignments between types that can be resolved is one assignment, unless it
breaks. -/
theorem assignable_through_iff {first middle last : String} {type type' : ResolvedType}
    (hfirst : (hierarchy.resolve first).outcome = .ok type)
    (hassignable : type.isAssignableTo middle = true)
    (hmiddle : (hierarchy.resolve middle).outcome = .ok type')
    (hassignable' : type'.isAssignableTo last = true) :
    type.isAssignableTo last = true ↔ ¬ hierarchy.Breaks first middle last := by
  rw [isAssignableTo_iff hfirst] at hassignable ⊢
  rw [isAssignableTo_iff hmiddle] at hassignable'
  constructor
  · intro hlast hbreaks
    cases hbreaks with
    | below hdeclared _ hroot =>
        rcases hlast with hreaches | ⟨hundeclared, -⟩
        · exact hroot hreaches
        · exact hdeclared hundeclared
    | above hundeclared hself hroot =>
        rcases hlast with hreaches | ⟨-, hlast⟩
        · exact hself ((reaches_of_undeclared hundeclared).1 hreaches)
        · exact hroot hlast
  · intro hbreaks
    rcases hassignable with hreaches | ⟨hundeclared, rfl⟩
    · rcases hassignable' with hreaches' | ⟨hundeclared', rfl⟩
      · exact .inl (hreaches.trans hreaches')
      by_cases hdeclared : hierarchy.find? first = none
      · exact .inr ⟨hdeclared, rfl⟩
      · exact .inl (Classical.byContradiction fun hroot =>
          hbreaks (.below hdeclared hundeclared' hroot))
    · by_cases hself : last = first
      · rw [hself]
        exact .inl .refl
      · exact .inr ⟨hundeclared, Classical.byContradiction fun hroot =>
          hbreaks (.above hundeclared hself hroot)⟩

/-! ### An assumed superclass -/

/-- Declared classes on top of a library that is only assumed. -/
def streamHierarchy : Hierarchy :=
  ((({} : Hierarchy).declare "app/Source" ⟨some "java/io/InputStream", ["app/Closeable"]⟩).declare
    "app/Buffered" ⟨some "app/Source", ["app/Closeable"]⟩).assume "java/"

private theorem find?_source : streamHierarchy.find? "app/Source" =
    some ⟨some "java/io/InputStream", ["app/Closeable"]⟩ := rfl

private theorem find?_buffered : streamHierarchy.find? "app/Buffered" =
    some ⟨some "app/Source", ["app/Closeable"]⟩ := rfl

private theorem find?_closeable : streamHierarchy.find? "app/Closeable" = none := rfl

private theorem find?_inputStream : streamHierarchy.find? "java/io/InputStream" = none := rfl

theorem resolve_source : (streamHierarchy.resolve "app/Source").outcome =
    .ok ⟨"app/Source", ["java/io/InputStream", "app/Closeable"]⟩ := by
  simp [resolve, ancestorsFrom, supertypes, Declaration.supertypes, find?_source,
    find?_closeable, find?_inputStream]

theorem resolve_buffered : (streamHierarchy.resolve "app/Buffered").outcome =
    .ok ⟨"app/Buffered", ["app/Source", "app/Closeable", "java/io/InputStream"]⟩ := by
  simp [resolve, ancestorsFrom, supertypes, Declaration.supertypes, find?_buffered, find?_source,
    find?_closeable, find?_inputStream]

theorem resolve_inputStream : (streamHierarchy.resolve "java/io/InputStream").outcome =
    .ok ⟨"java/io/InputStream", [rootClass]⟩ := by
  have hassumed : streamHierarchy.assumes "java/io/InputStream" = true := by decide +kernel
  simp [resolve, find?_inputStream, hassumed]

/-- The chain from a class over its superclass to the assumed class above. -/
theorem buffered_through_source :
    ∃ type type', (streamHierarchy.resolve "app/Buffered").outcome = .ok type ∧
      type.isAssignableTo "app/Source" = true ∧
      (streamHierarchy.resolve "app/Source").outcome = .ok type' ∧
      type'.isAssignableTo "java/io/InputStream" = true ∧
      (type.isAssignableTo "java/io/InputStream" = true ↔
        ¬ streamHierarchy.Breaks "app/Buffered" "app/Source" "java/io/InputStream") :=
  ⟨_, _, resolve_buffered, by decide, resolve_source, by decide,
    assignable_through_iff resolve_buffered (by decide) resolve_source (by decide)⟩

/-- A class is an input stream, and an input stream is an object, but the class is none. -/
theorem source_breaks_at_inputStream :
    ∃ type type', (streamHierarchy.resolve "app/Source").outcome = .ok type ∧
      type.isAssignableTo "java/io/InputStream" = true ∧
      (streamHierarchy.resolve "java/io/InputStream").outcome = .ok type' ∧
      type'.isAssignableTo rootClass = true ∧ type.isAssignableTo rootClass = false :=
  ⟨_, _, resolve_source, by decide, resolve_inputStream, by decide, by decide⟩

end Hierarchy

end CallProbe
