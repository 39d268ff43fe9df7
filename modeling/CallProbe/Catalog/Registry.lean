import CallProbe.Ancestry.ResolvedType
import CallProbe.Catalog.Provider
import Std.Data.HashMap

/-!
# Registries

All providers, in order of registration. Candidates are looked up by target type,
method name and staticness through an index of their positions; whatever the lineage
of a type, they come in order of registration, then of declaration.
-/

namespace CallProbe

/-- What a candidate is looked up by. -/
structure CandidateKey where
  target : String
  replaces : String
  forStatic : Bool
  deriving DecidableEq, Repr, Hashable

/-- Where a candidate stands: the position of its provider, and its position within. -/
structure CandidatePosition where
  provider : Nat
  function : Nat
  deriving DecidableEq, Repr

namespace CandidatePosition

/-- Registration order, then declaration order. -/
def le (p q : CandidatePosition) : Bool :=
  p.provider < q.provider || (p.provider == q.provider && p.function ≤ q.function)

end CandidatePosition

/-- The positions of the candidates under each key, in order. -/
abbrev CandidateIndex := Std.HashMap CandidateKey (Array CandidatePosition)

namespace CandidateIndex

def insertPosition (index : CandidateIndex) (entry : CandidateKey × CandidatePosition) :
    CandidateIndex :=
  index.alter entry.1 fun positions => some ((positions.getD #[]).push entry.2)

/-- The keys and positions of a provider's candidates. -/
def entriesOf (provider : Provider × Nat) : List (CandidateKey × CandidatePosition) :=
  provider.1.functions.zipIdx.map fun (function, position) =>
    ({ target := provider.1.target, replaces := function.replaces
       forStatic := function.forStatic },
      { provider := provider.2, function := position })

def ofProviders (providers : List Provider) : CandidateIndex :=
  (providers.zipIdx.flatMap entriesOf).foldl insertPosition ∅

end CandidateIndex

/-- Providers with the index of their candidates. -/
structure Registry where
  providers : List Provider
  index : CandidateIndex := CandidateIndex.ofProviders providers
  index_eq : index = CandidateIndex.ofProviders providers := by rfl

namespace Registry

def ofProviders (providers : List Provider) : Registry := { providers }

def length (registry : Registry) : Nat := registry.providers.length

def applicable (registry : Registry) (type : ResolvedType) : List Provider :=
  registry.providers.filter fun provider => type.isAssignableTo provider.target

def candidateAt? (registry : Registry) (position : CandidatePosition) : Option Candidate := do
  (← registry.providers[position.provider]?).functions[position.function]?

/-- The positions of the candidates for a method of a type, each once and in order. -/
def positions (registry : Registry) (type : ResolvedType) (method : String) (isStatic : Bool) :
    List CandidatePosition :=
  let found := type.lineage.flatMap fun target =>
    (registry.index.getD { target, replaces := method, forStatic := isStatic } #[]).toList
  (found.mergeSort CandidatePosition.le).eraseReps

/-- The candidates for a method of a type, in order of registration and declaration. -/
def candidates (registry : Registry) (type : ResolvedType) (method : String) (isStatic : Bool) :
    List Candidate :=
  (registry.positions type method isStatic).filterMap registry.candidateAt?

end Registry

end CallProbe
