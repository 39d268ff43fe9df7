import CallProbe.Ancestry.ResolvedType

/-!
# Class hierarchies

Declared types with their direct supertypes. A declared type is resolved breadth
first: its supertypes, then theirs, each once. Supertypes without declaration are
listed but lead nowhere. Undeclared types are unknown, except below certain name
prefixes, where they count as plain subclasses of the root class.
-/

namespace CallProbe

/-- The class that all others extend. -/
def rootClass : String := "java/lang/Object"

/-- The direct supertypes of a type. -/
structure Declaration where
  superclass : Option String
  interfaces : List String
  deriving DecidableEq, Repr

/-- Superclass first, then the interfaces. -/
def Declaration.supertypes (declaration : Declaration) : List String :=
  declaration.superclass.toList ++ declaration.interfaces

/-- Declarations, one for each name, and the name prefixes of assumed types. -/
structure Hierarchy where
  declarations : List (String × Declaration) := []
  assumed : List String := []
  deriving DecidableEq, Repr

namespace Hierarchy

/-- Declares a type; an earlier declaration of the name is forgotten. -/
def declare (hierarchy : Hierarchy) (name : String) (declaration : Declaration) : Hierarchy :=
  { hierarchy with
    declarations := (name, declaration) :: hierarchy.declarations.filter (·.1 != name) }

/-- Takes undeclared types below a name prefix for subclasses of the root class. -/
def assume (hierarchy : Hierarchy) (start : String) : Hierarchy :=
  { hierarchy with assumed := hierarchy.assumed ++ [start] }

def length (hierarchy : Hierarchy) : Nat := hierarchy.declarations.length

def find? (hierarchy : Hierarchy) (name : String) : Option Declaration :=
  hierarchy.declarations.lookup name

/-- The direct supertypes of a type, none without a declaration. -/
def supertypes (hierarchy : Hierarchy) (name : String) : List String :=
  (hierarchy.find? name).elim [] Declaration.supertypes

/-- Whether an undeclared type counts as a subclass of the root class. -/
def assumes (hierarchy : Hierarchy) (name : String) : Bool :=
  name != rootClass && hierarchy.assumed.any (name.startsWith ·)

/-- Number of declarations of types that were not seen. -/
def unseen (hierarchy : Hierarchy) (seen : List String) : Nat :=
  hierarchy.declarations.countP fun entry => !seen.contains entry.1

theorem unseen_cons_le (hierarchy : Hierarchy) (name : String) (seen : List String) :
    hierarchy.unseen (name :: seen) ≤ hierarchy.unseen seen := by
  apply List.countP_mono_left
  intro entry _ h
  simp at h ⊢
  exact h.2

theorem unseen_cons_lt {hierarchy : Hierarchy} {name : String} {seen : List String}
    (fresh : name ∉ seen) (declared : hierarchy.find? name ≠ none) :
    hierarchy.unseen (name :: seen) < hierarchy.unseen seen := by
  obtain ⟨declarations, _⟩ := hierarchy
  simp only [find?, unseen] at declared ⊢
  induction declarations with
  | nil => exact absurd rfl declared
  | cons entry rest ih =>
    obtain ⟨key, declaration⟩ := entry
    have le := unseen_cons_le { declarations := rest } name seen
    simp only [unseen] at le
    by_cases same : key = name
    · subst same
      simp [fresh] at le ⊢
      omega
    · have differs : (name == key) = false := by simpa using Ne.symm same
      rw [List.lookup_cons, differs] at declared
      have less := ih declared
      have kept : (name :: seen).contains key = seen.contains key := by simp [same]
      simp only [List.countP_cons, kept]
      omega

/-- The types reached from `queue` in breadth-first order, without those already `seen`. -/
def ancestorsFrom (hierarchy : Hierarchy) (seen : List String) : List String → List String
  | [] => []
  | name :: queue =>
    if name ∈ seen then ancestorsFrom hierarchy seen queue
    else name :: ancestorsFrom hierarchy (name :: seen) (queue ++ hierarchy.supertypes name)
termination_by queue => (hierarchy.unseen seen, queue.length)
decreasing_by
  · exact Prod.Lex.right _ (by simp)
  · rename_i fresh
    by_cases declared : hierarchy.find? name = none
    · simp only [supertypes, declared, Option.elim_none, List.append_nil]
      rcases Nat.lt_or_eq_of_le (hierarchy.unseen_cons_le name seen) with less | same
      · exact Prod.Lex.left _ _ less
      · rw [same]
        exact Prod.Lex.right _ (by simp)
    · exact Prod.Lex.left _ _ (unseen_cons_lt fresh declared)

def resolve (hierarchy : Hierarchy) : Resolver := fun name =>
  match hierarchy.find? name with
  | some declaration =>
    { outcome := .ok {
        name
        ancestors := hierarchy.ancestorsFrom [name] declaration.supertypes } }
  | none =>
    if hierarchy.assumes name then
      { outcome := .ok { name, ancestors := [rootClass] }
        events := [.assumedRoot name rootClass] }
    else { outcome := .error (.classNotFound name) }

end Hierarchy

end CallProbe
