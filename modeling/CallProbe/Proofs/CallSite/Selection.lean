import CallProbe.CallSite.Selection
import CallProbe.Proofs.Catalog.Lookup

/-!
# The rules of selection

What becomes of a call, as rules on the registry, the settings, the resolver and the
method. The rules know nothing of the index, and a rule that ends the decision before
the owner is resolved does not mention the resolver.
-/

namespace CallProbe

/-- A descriptor without its leading parameters and its last one. -/
theorem MethodDescriptor.inner?_eq_some_iff {descriptor inner : MethodDescriptor} {skip : Nat} :
    descriptor.inner? skip = some inner ↔
      descriptor.returns = inner.returns ∧ ∃ leading last, leading.length = skip ∧
        descriptor.parameters = leading ++ inner.parameters ++ [last] := by
  unfold inner?
  split
  · rename_i hlt
    have hrest : descriptor.parameters.drop skip ≠ [] := by
      rw [ne_eq, List.drop_eq_nil_iff]
      omega
    constructor
    · intro h
      cases h
      refine ⟨rfl, descriptor.parameters.take skip, (descriptor.parameters.drop skip).getLast hrest,
        List.length_take_of_le (Nat.le_of_lt hlt), ?_⟩
      rw [List.append_assoc, List.dropLast_append_getLast, List.take_append_drop]
    · intro h
      rcases h with ⟨hreturns, leading, last, rfl, hparameters⟩
      rw [hparameters, List.append_assoc, List.drop_left, List.dropLast_concat, hreturns]
  · rename_i hge
    simp only [reduceCtorEq, false_iff]
    intro h
    rcases h with ⟨_, leading, last, rfl, hparameters⟩
    rw [hparameters] at hge
    simp at hge

namespace Candidate

/-- A candidate has the shape of a call: it takes the receiver, if there is one, the arguments and
the correlation id, and returns what the call returns. -/
structure Fits (candidate : Candidate) (call : MethodDescriptor) (isStatic : Bool) : Prop where
  returns : candidate.descriptor.returns = call.returns
  parameters : ∃ receivers correlation, receivers.length = receiverCount isStatic ∧
    candidate.descriptor.parameters = receivers ++ call.parameters ++ [correlation]

theorem accepts_iff {candidate : Candidate} {call : MethodDescriptor} {isStatic : Bool} :
    candidate.accepts call isStatic = true ↔
      candidate.forStatic = isStatic ∧ candidate.Fits call isStatic := by
  rw [accepts, Bool.and_eq_true, beq_iff_eq, beq_iff_eq, MethodDescriptor.inner?_eq_some_iff]
  exact ⟨fun h => ⟨h.1, h.2.1, h.2.2⟩, fun h => ⟨h.1, h.2.returns, h.2.parameters⟩⟩

end Candidate

theorem Settings.admits_iff {settings : Settings} {owner : String} :
    settings.admits owner = true ↔ ∃ start ∈ settings.owners, start.toList <+: owner.toList := by
  simp [admits]

namespace Weaver

variable (weaver : Weaver) (method : MethodContext) (call : Call)

/-- What may stand in for a call whose owner is `type`. -/
def eligible (type : ResolvedType) : List Candidate :=
  weaver.registry.eligible type call.name call.kind.isStatic

/-- The decision on a call depends on the type of its owner. -/
structure Considers : Prop where
  ordinary : method.name ≠ MethodContext.classInitializer
  admitted : ∃ start ∈ weaver.settings.owners, start.toList <+: call.owner.toList
  dispatched : call.kind ≠ .special

/-- The rules for a call. -/
inductive Decides : Except Fault (Option Candidate) → Prop where
  | initializer (h : method.name = MethodContext.classInitializer) : Decides (.ok none)
  | foreign (h : ∀ start ∈ weaver.settings.owners, ¬ start.toList <+: call.owner.toList) :
      Decides (.ok none)
  | special (h : call.kind = .special) : Decides (.ok none)
  | unresolved {fault : Fault} (h : weaver.Considers method call)
      (howner : (weaver.resolver call.owner).outcome = .error fault) : Decides (.error fault)
  | uncovered {type : ResolvedType} (h : weaver.Considers method call)
      (howner : (weaver.resolver call.owner).outcome = .ok type)
      (hnone : weaver.eligible call type = []) : Decides (.ok none)
  | illegible {type : ResolvedType} (h : weaver.Considers method call)
      (howner : (weaver.resolver call.owner).outcome = .ok type)
      (hsome : weaver.eligible call type ≠ [])
      (hparse : ∀ descriptor, MethodDescriptor.parse call.descriptor ≠ .ok descriptor) :
      Decides (.error (.invalidDescriptor call.descriptor))
  | unmatched {type : ResolvedType} {descriptor : MethodDescriptor}
      (h : weaver.Considers method call)
      (howner : (weaver.resolver call.owner).outcome = .ok type)
      (hparse : MethodDescriptor.parse call.descriptor = .ok descriptor)
      (hnone : ∀ candidate ∈ weaver.eligible call type,
        ¬ candidate.Fits descriptor call.kind.isStatic) :
      Decides (.ok none)
  | substituted {type : ResolvedType} {descriptor : MethodDescriptor}
      {earlier later : List Candidate} {candidate : Candidate}
      (h : weaver.Considers method call)
      (howner : (weaver.resolver call.owner).outcome = .ok type)
      (hparse : MethodDescriptor.parse call.descriptor = .ok descriptor)
      (heligible : weaver.eligible call type = earlier ++ candidate :: later)
      (hfits : candidate.Fits descriptor call.kind.isStatic)
      (hfirst : ∀ other ∈ earlier, ¬ other.Fits descriptor call.kind.isStatic) :
      Decides (.ok (some candidate))

variable {weaver method call}

theorem forStatic_of_mem_eligible {type : ResolvedType} {candidate : Candidate}
    (h : candidate ∈ weaver.eligible call type) : candidate.forStatic = call.kind.isStatic := by
  rcases List.mem_flatMap.1 h with ⟨provider, _, hmem⟩
  have hboth := (List.mem_filter.1 hmem).2
  simp only [decide_eq_true_eq] at hboth
  exact hboth.2

theorem accepts_iff_fits {type : ResolvedType} {candidate : Candidate}
    {descriptor : MethodDescriptor} (h : candidate ∈ weaver.eligible call type) :
    candidate.accepts descriptor call.kind.isStatic = true ↔
      candidate.Fits descriptor call.kind.isStatic := by
  rw [Candidate.accepts_iff]
  exact and_iff_right (forStatic_of_mem_eligible h)

theorem find?_accepts_eq_none_iff {type : ResolvedType} {descriptor : MethodDescriptor} :
    (weaver.eligible call type).find? (·.accepts descriptor call.kind.isStatic) = none ↔
      ∀ candidate ∈ weaver.eligible call type, ¬ candidate.Fits descriptor call.kind.isStatic := by
  rw [List.find?_eq_none]
  exact forall₂_congr fun candidate hmem => not_congr (accepts_iff_fits hmem)

theorem find?_accepts_eq_some_iff {type : ResolvedType} {descriptor : MethodDescriptor}
    {candidate : Candidate} :
    (weaver.eligible call type).find? (·.accepts descriptor call.kind.isStatic) = some candidate ↔
      ∃ earlier later, weaver.eligible call type = earlier ++ candidate :: later ∧
        candidate.Fits descriptor call.kind.isStatic ∧
        ∀ other ∈ earlier, ¬ other.Fits descriptor call.kind.isStatic := by
  rw [List.find?_eq_some_iff_append]
  constructor
  · intro h
    rcases h with ⟨haccepts, earlier, later, hsplit, hfirst⟩
    have hmem : candidate ∈ weaver.eligible call type := by simp [hsplit]
    refine ⟨earlier, later, hsplit, (accepts_iff_fits hmem).1 haccepts, ?_⟩
    intro other hother hfits
    have hother' : other ∈ weaver.eligible call type := by simp [hsplit, hother]
    have haccepts' := (accepts_iff_fits hother').2 hfits
    simpa [haccepts'] using hfirst other hother
  · intro h
    rcases h with ⟨earlier, later, hsplit, hfits, hfirst⟩
    have hmem : candidate ∈ weaver.eligible call type := by simp [hsplit]
    refine ⟨(accepts_iff_fits hmem).2 hfits, earlier, later, hsplit, fun other hother => ?_⟩
    have hother' : other ∈ weaver.eligible call type := by simp [hsplit, hother]
    have hrefused := mt (accepts_iff_fits hother').1 (hfirst other hother)
    simpa using hrefused

/-- Looking at a resolved owner, without the events. -/
theorem selectAt_outcome (type : ResolvedType) :
    (weaver.selectAt type call).outcome =
      if weaver.eligible call type = [] then .ok none
      else (MethodDescriptor.parse call.descriptor).map fun descriptor =>
        (weaver.eligible call type).find? (·.accepts descriptor call.kind.isStatic) := by
  unfold selectAt
  simp only [Registry.candidates_eq_eligible]
  rw [← eligible]
  split
  · rename_i hnone
    rw [if_pos hnone]
  · rename_i hsome
    rw [if_neg hsome]
    cases MethodDescriptor.parse call.descriptor with
    | error fault => rfl
    | ok descriptor =>
        simp only [Except.map]
        split
        · rename_i hfind
          rw [hfind]
        · rename_i hfind
          rw [hfind]

theorem select_outcome_of_considers (h : weaver.Considers method call) :
    (weaver.select method call).outcome =
      (weaver.resolver call.owner).outcome.bind fun type =>
        (weaver.selectAt type call).outcome := by
  have hpass : weaver.passesOver method call = false := by
    simp [passesOver, h.ordinary, Settings.admits_iff.2 h.admitted]
  unfold select
  rw [hpass, if_neg Bool.false_ne_true, if_neg h.dispatched]
  cases howner : (weaver.resolver call.owner).outcome <;> simp [howner, Except.bind]

theorem select_outcome_of_not_considers (h : ¬ weaver.Considers method call) :
    (weaver.select method call).outcome = .ok none := by
  unfold select
  split
  · rfl
  · rename_i hpass
    split
    · rfl
    · rename_i hdispatched
      simp only [passesOver, Bool.or_eq_true, beq_iff_eq, Bool.not_eq_true', not_or,
        Bool.not_eq_false] at hpass
      exact absurd ⟨hpass.1, Settings.admits_iff.1 hpass.2, hdispatched⟩ h

/-- Where the owner does not matter one of the rules without the resolver applies. -/
theorem decides_of_not_considers (h : ¬ weaver.Considers method call) :
    weaver.Decides method call (.ok none) := by
  by_cases hname : method.name = MethodContext.classInitializer
  · exact .initializer hname
  by_cases hkind : call.kind = .special
  · exact .special hkind
  refine .foreign fun start hstart hprefix => h ⟨hname, ⟨start, hstart, hprefix⟩, hkind⟩

theorem decides_selectAt {type : ResolvedType} (h : weaver.Considers method call)
    (howner : (weaver.resolver call.owner).outcome = .ok type) :
    weaver.Decides method call (weaver.selectAt type call).outcome := by
  rw [selectAt_outcome]
  by_cases hnone : weaver.eligible call type = []
  · rw [if_pos hnone]
    exact .uncovered h howner hnone
  rw [if_neg hnone]
  cases hparse : MethodDescriptor.parse call.descriptor with
  | error fault =>
      have hfault : fault = .invalidDescriptor call.descriptor := by
        unfold MethodDescriptor.parse at hparse
        split at hparse <;> cases hparse
        rfl
      rw [hfault]
      exact .illegible h howner hnone fun descriptor hok => by rw [hparse] at hok; cases hok
  | ok descriptor =>
      simp only [Except.map]
      cases hfind : (weaver.eligible call type).find?
          (·.accepts descriptor call.kind.isStatic) with
      | none => exact .unmatched h howner hparse (find?_accepts_eq_none_iff.1 hfind)
      | some candidate =>
          rcases find?_accepts_eq_some_iff.1 hfind with ⟨earlier, later, hsplit, hfits, hfirst⟩
          exact .substituted h howner hparse hsplit hfits hfirst

/-- What stands in for a call may do so, and accepts the call's descriptor. -/
theorem exists_accepts_of_select {candidate : Candidate}
    (h : (weaver.select method call).outcome = .ok (some candidate)) :
    ∃ type descriptor, candidate ∈ weaver.eligible call type ∧
      MethodDescriptor.parse call.descriptor = .ok descriptor ∧
      candidate.accepts descriptor call.kind.isStatic = true := by
  by_cases hconsiders : weaver.Considers method call
  · rw [select_outcome_of_considers hconsiders] at h
    cases howner : (weaver.resolver call.owner).outcome with
    | error fault =>
        rw [howner] at h
        cases h
    | ok type =>
        rw [howner] at h
        have hselect := (selectAt_outcome type).symm.trans h
        split at hselect
        · cases hselect
        cases hparse : MethodDescriptor.parse call.descriptor with
        | error fault =>
            rw [hparse] at hselect
            cases hselect
        | ok descriptor =>
            rw [hparse] at hselect
            have hfind := Except.ok.inj hselect
            have haccepts := List.find?_some hfind
            exact ⟨type, descriptor, List.mem_of_find?_eq_some hfind, rfl, haccepts⟩
  · rw [select_outcome_of_not_considers hconsiders] at h
    cases h

theorem exists_provider_of_mem_eligible {type : ResolvedType} {candidate : Candidate}
    (h : candidate ∈ weaver.eligible call type) :
    ∃ provider ∈ weaver.registry.providers, candidate ∈ provider.functions := by
  rcases List.mem_flatMap.1 h with ⟨provider, hprovider, hfunction⟩
  exact ⟨provider, (List.mem_filter.1 hprovider).1, (List.mem_filter.1 hfunction).1⟩

/-- What stands in for a call is a function of some provider. -/
theorem exists_provider_of_select {candidate : Candidate}
    (h : (weaver.select method call).outcome = .ok (some candidate)) :
    ∃ provider ∈ weaver.registry.providers, candidate ∈ provider.functions := by
  rcases exists_accepts_of_select h with ⟨_, _, hmem, _, _⟩
  exact exists_provider_of_mem_eligible hmem

/-- A call is decided by the rules, and only one decision follows from them. -/
theorem select_outcome_eq_iff {outcome : Except Fault (Option Candidate)} :
    (weaver.select method call).outcome = outcome ↔ weaver.Decides method call outcome := by
  constructor
  · intro h
    subst h
    by_cases hconsiders : weaver.Considers method call
    · rw [select_outcome_of_considers hconsiders]
      cases howner : (weaver.resolver call.owner).outcome with
      | error fault => exact .unresolved hconsiders howner
      | ok type => exact decides_selectAt hconsiders howner
    · rw [select_outcome_of_not_considers hconsiders]
      exact decides_of_not_considers hconsiders
  · intro h
    cases h with
    | initializer hname => exact select_outcome_of_not_considers fun h => h.ordinary hname
    | foreign hforeign =>
        refine select_outcome_of_not_considers fun h => ?_
        rcases h.admitted with ⟨start, hstart, hprefix⟩
        exact hforeign start hstart hprefix
    | special hkind => exact select_outcome_of_not_considers fun h => h.dispatched hkind
    | unresolved h howner =>
        rw [select_outcome_of_considers h, howner]
        rfl
    | uncovered h howner hnone =>
        rw [select_outcome_of_considers h, howner]
        exact (selectAt_outcome _).trans (if_pos hnone)
    | illegible h howner hsome hparse =>
        rw [select_outcome_of_considers h, howner]
        refine (selectAt_outcome _).trans ((if_neg hsome).trans ?_)
        unfold MethodDescriptor.parse at hparse ⊢
        cases hread : MethodDescriptor.read? call.descriptor.toList with
        | none => rfl
        | some descriptor => exact absurd (by rw [hread]) (hparse descriptor)
    | unmatched h howner hparse hnone =>
        rw [select_outcome_of_considers h, howner]
        refine (selectAt_outcome _).trans ?_
        rw [hparse, Except.map, find?_accepts_eq_none_iff.2 hnone]
        exact ite_self _
    | substituted h howner hparse heligible hfits hfirst =>
        rw [select_outcome_of_considers h, howner]
        refine (selectAt_outcome _).trans ?_
        rw [hparse, Except.map,
          find?_accepts_eq_some_iff.2 ⟨_, _, heligible, hfits, hfirst⟩,
          if_neg (by simp [heligible])]

end Weaver

end CallProbe
