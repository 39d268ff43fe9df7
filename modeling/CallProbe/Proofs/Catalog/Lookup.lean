import CallProbe.Catalog.Registry
import Mathlib.Data.List.Sort

/-!
# Looking candidates up

The index answers like a scan over all providers. Both sides are lists of positions in
strictly ascending order, so it is enough that they have the same positions.
-/

namespace CallProbe

/-! ## Runs of equal items -/

section EraseReps

variable {α : Type} [BEq α]

private theorem eraseReps_loop (a : α) (list found : List α) :
    List.eraseRepsBy.loop (· == ·) a list found = found.reverse ++ (a :: list).eraseReps := by
  induction list generalizing a found with
  | nil => simp [List.eraseReps, List.eraseRepsBy, List.eraseRepsBy.loop]
  | cons b list ih =>
      simp only [List.eraseReps, List.eraseRepsBy, List.eraseRepsBy.loop]
      split
      · rw [ih]
        rfl
      · rw [ih, ih b [a]]
        simp

private theorem eraseReps_cons_cons (a b : α) (list : List α) :
    (a :: b :: list).eraseReps =
      if a == b then (a :: list).eraseReps else a :: (b :: list).eraseReps := by
  rw [List.eraseReps, List.eraseRepsBy, List.eraseRepsBy.loop]
  split
  · rename_i heq
    rw [if_pos heq, eraseReps_loop]
    rfl
  · rename_i hne
    rw [if_neg (by rw [hne]; decide), eraseReps_loop]
    rfl

private theorem mem_eraseReps [LawfulBEq α] {x : α} {list : List α} :
    x ∈ list.eraseReps ↔ x ∈ list := by
  induction list with
  | nil => rfl
  | cons a list ih =>
      cases list with
      | nil => rfl
      | cons b list =>
          rw [eraseReps_cons_cons]
          split
          · rename_i heq
            rw [LawfulBEq.eq_of_beq heq, ih]
            simp
          · rw [List.mem_cons, ih, List.mem_cons (l := b :: list)]

end EraseReps

/-! ## The order of positions -/

namespace CandidatePosition

/-- Registered earlier, or declared earlier by the same provider. -/
def Before (p q : CandidatePosition) : Prop :=
  p.provider < q.provider ∨ (p.provider = q.provider ∧ p.function < q.function)

instance : Std.Irrefl Before := ⟨fun p h => by unfold Before at h; omega⟩

instance : Std.Antisymm Before := ⟨fun p q h h' => by unfold Before at h h'; omega⟩

theorem le_iff {p q : CandidatePosition} : p.le q = true ↔ p.Before q ∨ p = q := by
  rcases p with ⟨provider, function⟩
  rcases q with ⟨provider', function'⟩
  simp only [le, Before, Bool.or_eq_true, Bool.and_eq_true, decide_eq_true_eq, beq_iff_eq, mk.injEq]
  omega

theorem Before.trans_le {p q r : CandidatePosition} (h : p.Before q) (hle : q.le r = true) :
    p.Before r := by
  rcases le_iff.1 hle with hlt | rfl
  · unfold Before at *
    omega
  · exact h

private theorem pairwise_eraseReps {positions : List CandidatePosition}
    (h : positions.Pairwise (le · · = true)) : positions.eraseReps.Pairwise Before := by
  induction positions with
  | nil => exact .nil
  | cons p positions ih =>
      cases positions with
      | nil => exact List.pairwise_singleton _ _
      | cons q positions =>
          have hrest := List.pairwise_cons.1 h
          have hfrom := List.pairwise_cons.1 hrest.2
          rw [eraseReps_cons_cons]
          split
          · rename_i heq
            rw [LawfulBEq.eq_of_beq heq]
            exact ih hrest.2
          · rename_i hne
            have hpq : p.Before q := by
              rcases le_iff.1 (hrest.1 q List.mem_cons_self) with hlt | heq
              · exact hlt
              · exact absurd (beq_iff_eq.2 heq) hne
            refine List.pairwise_cons.2 ⟨fun r hr => ?_, ih hrest.2⟩
            rcases List.mem_cons.1 (mem_eraseReps.1 hr) with rfl | hmem
            · exact hpq
            · exact hpq.trans_le (hfrom.1 r hmem)

end CandidatePosition

/-! ## The index -/

namespace CandidateIndex

private theorem toList_getD_foldl (key : CandidateKey)
    (entries : List (CandidateKey × CandidatePosition)) (index : CandidateIndex) :
    ((entries.foldl insertPosition index).getD key #[]).toList =
      (index.getD key #[]).toList ++ (entries.filter (·.1 = key)).map Prod.snd := by
  induction entries generalizing index with
  | nil => simp
  | cons entry entries ih =>
      rw [List.foldl_cons, ih, insertPosition, Std.HashMap.getD_alter]
      by_cases heq : entry.1 = key
      · rw [if_pos (by simp [heq]), ← heq, ← Std.HashMap.getD_eq_getD_getElem?]
        simp
      · rw [if_neg (by simp [heq])]
        simp [heq]

/-- The positions under a key are those of its candidates, in order. -/
theorem toList_getD_ofProviders (key : CandidateKey) (providers : List Provider) :
    ((ofProviders providers).getD key #[]).toList =
      ((providers.zipIdx.flatMap entriesOf).filter (·.1 = key)).map Prod.snd := by
  rw [ofProviders, toList_getD_foldl]
  simp

private theorem pairwise_zipIdx {α : Type} (items : List α) :
    items.zipIdx.Pairwise (·.2 < ·.2) := by
  rw [← List.pairwise_map (f := Prod.snd) (R := (· < ·)), List.zipIdx_map_snd]
  exact List.pairwise_lt_range'

/-- All entries come in the order of their positions. -/
theorem pairwise_entries (providers : List Provider) :
    (providers.zipIdx.flatMap entriesOf).Pairwise (·.2.Before ·.2) := by
  refine List.pairwise_flatMap.2 ⟨fun provider _ => ?_, ?_⟩
  · refine List.pairwise_map.2 ((pairwise_zipIdx _).imp fun hlt => ?_)
    exact .inr ⟨rfl, hlt⟩
  · refine (pairwise_zipIdx providers).imp fun hlt x hx y hy => ?_
    rcases List.mem_map.1 hx with ⟨_, _, rfl⟩
    rcases List.mem_map.1 hy with ⟨_, _, rfl⟩
    exact .inl hlt

end CandidateIndex

/-! ## Lookups -/

namespace Registry

open CandidateIndex

variable (registry : Registry) (type : ResolvedType) (method : String) (isStatic : Bool)

/-- The functions that may stand in for a method of a type, found without the index. -/
def eligible : List Candidate :=
  (registry.providers.filter (·.target ∈ type.lineage)).flatMap fun provider =>
    provider.functions.filter fun function =>
      function.replaces = method ∧ function.forStatic = isStatic

/-- Whether an entry is about a method of a type. -/
def isAbout (entry : CandidateKey × CandidatePosition) : Bool :=
  entry.1.target ∈ type.lineage ∧ entry.1.replaces = method ∧ entry.1.forStatic = isStatic

/-- A lookup finds positions in order, each once, whatever the lineage is. -/
theorem pairwise_positions :
    (registry.positions type method isStatic).Pairwise CandidatePosition.Before := by
  refine CandidatePosition.pairwise_eraseReps (List.pairwise_mergeSort ?_ ?_ _)
  · intro p q r hpq hqr
    simp only [CandidatePosition.le, Bool.or_eq_true, Bool.and_eq_true, decide_eq_true_eq,
      beq_iff_eq] at *
    omega
  · intro p q
    simp only [CandidatePosition.le, Bool.or_eq_true, Bool.and_eq_true, decide_eq_true_eq,
      beq_iff_eq]
    omega

/-- A lookup finds the positions a scan finds. -/
theorem positions_eq_scan :
    registry.positions type method isStatic =
      ((registry.providers.zipIdx.flatMap entriesOf).filter (isAbout type method isStatic)).map
        Prod.snd := by
  have hsorted := registry.pairwise_positions type method isStatic
  refine hsorted.eq_of_mem_iff ?_ fun position => ?_
  · exact List.pairwise_map.2 ((pairwise_entries _).sublist List.filter_sublist)
  · rw [positions, mem_eraseReps, List.mem_mergeSort, registry.index_eq]
    simp only [List.mem_flatMap, toList_getD_ofProviders, List.mem_map, List.mem_filter, isAbout,
      decide_eq_true_eq]
    constructor
    · intro h
      rcases h with ⟨target, htarget, entry, ⟨hentry, hkey⟩, rfl⟩
      exact ⟨entry, ⟨hentry, by simp [hkey, htarget]⟩, rfl⟩
    · intro h
      rcases h with ⟨entry, ⟨hentry, htarget, hmethod, hstatic⟩, rfl⟩
      exact ⟨entry.1.target, htarget, entry, ⟨hentry, by rw [← hmethod, ← hstatic]⟩, rfl⟩

private theorem filterMap_entriesOf {provider : Provider} {number : Nat}
    (hprovider : registry.providers[number]? = some provider) :
    ((entriesOf (provider, number)).filter (isAbout type method isStatic)).filterMap
        (registry.candidateAt? ·.2) =
      provider.functions.filter fun function =>
        provider.target ∈ type.lineage ∧ function.replaces = method ∧
          function.forStatic = isStatic := by
  have hat : ∀ entry ∈ provider.functions.zipIdx,
      registry.candidateAt? { provider := number, function := entry.2 } = some entry.1 := by
    intro entry hentry
    have hfunction := List.mem_zipIdx_iff_getElem?.1 hentry
    simp [candidateAt?, hprovider, hfunction]
  rw [entriesOf, List.filter_map, List.filterMap_map,
    List.filterMap_congr (g := some ∘ Prod.fst)]
  · rw [List.filterMap_eq_map]
    conv_rhs => rw [← List.zipIdx_map_fst 0 provider.functions, List.filter_map]
    rfl
  · intro entry hentry
    exact hat entry (List.mem_of_mem_filter hentry)

/-- The candidates that are looked up are the functions that may stand in, in order of registration
and declaration. -/
theorem candidates_eq_eligible :
    registry.candidates type method isStatic = registry.eligible type method isStatic := by
  have hscan : registry.candidates type method isStatic =
      registry.providers.zipIdx.flatMap fun provider =>
        provider.1.functions.filter fun function =>
          provider.1.target ∈ type.lineage ∧ function.replaces = method ∧
            function.forStatic = isStatic := by
    rw [candidates, positions_eq_scan, List.filterMap_map, List.filter_flatMap,
      List.filterMap_flatMap]
    refine List.flatMap_congr fun provider hmem => ?_
    exact registry.filterMap_entriesOf type method isStatic (List.mem_zipIdx_iff_getElem?.1 hmem)
  rw [hscan, eligible]
  conv_rhs => rw [← List.zipIdx_map_fst 0 registry.providers]
  generalize registry.providers.zipIdx = providers
  induction providers with
  | nil => rfl
  | cons provider providers ih =>
      rw [List.flatMap_cons, ih, List.map_cons, List.filter_cons]
      by_cases htarget : provider.1.target ∈ type.lineage <;> simp [htarget]

/-! ## A scan of all providers -/

/-- A position is found exactly if a function that may stand in stands there. -/
theorem mem_positions_iff {position : CandidatePosition} :
    position ∈ registry.positions type method isStatic ↔ ∃ provider function,
      registry.providers[position.provider]? = some provider ∧
        provider.functions[position.function]? = some function ∧
        type.isAssignableTo provider.target = true ∧ function.replaces = method ∧
        function.forStatic = isStatic := by
  have hassignable (target : String) :
      type.isAssignableTo target = true ↔ target ∈ type.lineage := List.contains_iff_mem
  simp only [positions_eq_scan, List.mem_map, List.mem_filter, List.mem_flatMap, isAbout,
    decide_eq_true_eq, hassignable]
  constructor
  · intro h
    rcases h with ⟨_, ⟨⟨⟨provider, number⟩, hprovider, hentry⟩, habout⟩, rfl⟩
    rcases List.mem_map.1 hentry with ⟨⟨function, place⟩, hfunction, rfl⟩
    exact ⟨provider, function, List.mem_zipIdx_iff_getElem?.1 hprovider,
      List.mem_zipIdx_iff_getElem?.1 hfunction, habout⟩
  · intro h
    rcases h with ⟨provider, function, hprovider, hfunction, habout⟩
    have hentry : (⟨provider.target, function.replaces, function.forStatic⟩, position) ∈
        entriesOf (provider, position.provider) :=
      List.mem_map.2 ⟨(function, position.function), List.mem_zipIdx_iff_getElem?.2 hfunction, rfl⟩
    exact ⟨_, ⟨⟨_, List.mem_zipIdx_iff_getElem?.2 hprovider, hentry⟩, habout⟩, rfl⟩

/-- Every position that is found leads to its candidate. -/
theorem map_candidateAt?_positions :
    (registry.positions type method isStatic).map registry.candidateAt? =
      (registry.candidates type method isStatic).map some := by
  have hat : ∀ position ∈ registry.positions type method isStatic,
      ∃ candidate, registry.candidateAt? position = some candidate := by
    intro position hposition
    rcases (registry.mem_positions_iff type method isStatic).1 hposition with
      ⟨provider, function, hprovider, hfunction, -⟩
    exact ⟨function, by simp [candidateAt?, hprovider, hfunction]⟩
  unfold candidates
  generalize registry.positions type method isStatic = positions at hat
  induction positions with
  | nil => rfl
  | cons position rest ih =>
      rcases hat position List.mem_cons_self with ⟨candidate, hcandidate⟩
      have hrest := ih fun other hother => hat other (List.mem_cons_of_mem position hother)
      rw [List.map_cons, hcandidate, hrest, List.filterMap_cons_some hcandidate, List.map_cons]

theorem eligible_eq_applicable :
    registry.eligible type method isStatic =
      (registry.applicable type).flatMap fun provider =>
        provider.functions.filter fun function =>
          function.replaces = method ∧ function.forStatic = isStatic := by
  have hsame : registry.providers.filter (·.target ∈ type.lineage) = registry.applicable type := by
    refine List.filter_congr fun provider _ => ?_
    rw [ResolvedType.isAssignableTo, List.contains_eq_mem]
  rw [eligible, hsame]

/-- Looking candidates up by the index of a registry gives what a scan of its applicable providers
gives. The positions behind them are those of all functions that may stand in, in order of
registration and declaration and each once, however often the lineage names a target. -/
theorem candidates_agree_with_scan (providers : List Provider) (type : ResolvedType)
    (method : String) (isStatic : Bool) :
    (ofProviders providers).candidates type method isStatic =
        ((ofProviders providers).applicable type).flatMap (fun provider =>
          provider.functions.filter fun function =>
            function.replaces = method ∧ function.forStatic = isStatic) ∧
      ((ofProviders providers).candidates type method isStatic).map some =
        ((ofProviders providers).positions type method isStatic).map
          (ofProviders providers).candidateAt? ∧
      ((ofProviders providers).positions type method isStatic).Pairwise CandidatePosition.Before ∧
      ∀ position, position ∈ (ofProviders providers).positions type method isStatic ↔
        ∃ provider function, providers[position.provider]? = some provider ∧
          provider.functions[position.function]? = some function ∧
          type.isAssignableTo provider.target = true ∧ function.replaces = method ∧
          function.forStatic = isStatic := by
  refine ⟨?_, (map_candidateAt?_positions ..).symm, pairwise_positions .., fun _ =>
    mem_positions_iff ..⟩
  rw [candidates_eq_eligible, eligible_eq_applicable]

end Registry

end CallProbe
