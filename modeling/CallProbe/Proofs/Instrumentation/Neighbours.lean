import CallProbe.Proofs.Instrumentation.Sequence

/-!
# The rest of the class

The members of a class share one pool. Whatever the pool of a class was before methods were
instrumented, those that were not can be read against the pool that is left as they were read
before; and where instrumenting fails, the pool is the old one.
-/

namespace CallProbe

open Outcome

variable {pool later : Pool} {method : MethodSource} {methods : List MethodSource}
  {weaver : Weaver} {store : ObjectiveStore}

/-! ## Pools that can take the place of others -/

theorem Pool.Extends.memberRef (h : later.Extends pool) {index : UInt16} {member : MemberRef}
    (hm : pool.memberRef index = .ok member) : later.memberRef index = .ok member := by
  rcases memberRef_eq_ok_iff.1 hm with ⟨kind, owner, signature, hget, howner, hsignature, hkind⟩
  exact memberRef_eq_ok_iff.2
    ⟨kind, owner, signature, h hget, h.className howner, h.nameAndType hsignature, hkind⟩

/-- What could be found in `pool`, and every body that could be read against it, can be found in and
read against `later` as well and is the same there. -/
structure Pool.StandsFor (later pool : Pool) : Prop where
  get : ∀ index constant, pool.get index = .ok constant → later.get index = .ok constant
  text : ∀ index text, pool.text index = .ok text → later.text index = .ok text
  className : ∀ index name, pool.className index = .ok name → later.className index = .ok name
  nameAndType : ∀ index symbols,
    pool.nameAndType index = .ok symbols → later.nameAndType index = .ok symbols
  memberRef : ∀ index member,
    pool.memberRef index = .ok member → later.memberRef index = .ok member
  body : ∀ code body stream, MethodBody.ofBytes pool code = .ok body →
    body.stream pool = .ok stream →
      MethodBody.ofBytes later code = .ok body ∧ body.stream later = .ok stream
  slots_le : later.slots ≤ 65535

/-- A pool that has grown stands for the one it has grown from. -/
theorem Pool.Sound.standsFor (hs : later.Sound) (hext : later.Extends pool) :
    later.StandsFor pool where
  get := fun _ _ h => get_eq_ok_iff.2 (hext (get_eq_ok_iff.1 h))
  text := fun _ _ h => hext.text h
  className := fun _ _ h => hext.className h
  nameAndType := fun _ _ h => hext.nameAndType h
  memberRef := fun _ _ h => hext.memberRef h
  body := fun _ _ _ hbody hstream =>
    ⟨MethodBody.ofBytes_extends hbody hext, MethodBody.stream_extends hstream hext⟩
  slots_le := hs.slots_le

/-! ## What instrumenting leaves -/

/-- Instrumenting leaves the old pool if it fails, and else one that stands for it. -/
structure Instrumentation.Spares {α : Type} (done : Instrumentation α) (pool : Pool) : Prop where
  failed : ∀ fault, done.outcome = .error fault → done.pool = pool
  succeeded : ∀ result, done.outcome = .ok result → done.pool.StandsFor pool

/-- Finishing the methods of a class lets the pool grow, method by method. -/
theorem finishAll_pool {all : List (MethodSource × Option PreparedMethod)}
    {results : List InstrumentedMethod} (hs : pool.Sound)
    (h : (finishAll pool all).outcome = .ok results) :
    (finishAll pool all).pool.Sound ∧ (finishAll pool all).pool.Extends pool := by
  induction all generalizing pool results with
  | nil => exact ⟨hs, Pool.Extends.refl pool⟩
  | cons first rest ih =>
      rcases first with ⟨method, prepared⟩
      rcases finishAll_cons_eq_ok h with ⟨result, others, left, hfirst, hleft, hrest, -, hpool⟩
      have hgrown := MethodSource.finish_pool hs hfirst
      rw [hleft] at hgrown
      have hlast := ih hgrown.1 hrest
      rw [hpool]
      exact ⟨hlast.1, Pool.Extends.trans hlast.2 hgrown.2⟩

/-- A pool is exchanged for what finishing leaves only if finishing went well. -/
theorem Finishing.settle_spares {α : Type} (finishing : Finishing α)
    (hgrown : ∀ result, finishing.outcome = .ok result →
      finishing.pool.Sound ∧ finishing.pool.Extends pool)
    (store : ObjectiveStore) (events : List Event) :
    Instrumentation.Spares
      { outcome := finishing.outcome, pool := finishing.settle pool, store, events } pool where
  failed := by
    intro fault hfault
    have hfault : finishing.outcome = .error fault := hfault
    simp only [settle, hfault]
  succeeded := by
    intro result hok
    have hok : finishing.outcome = .ok result := hok
    simp only [settle, hok]
    exact (hgrown result hok).1.standsFor (hgrown result hok).2

/-- What ends before anything is finished leaves the pool alone. -/
theorem Instrumentation.spares_of_error {α : Type} {fault : Fault} (store : ObjectiveStore)
    (events : List Event) :
    Instrumentation.Spares (α := α) { outcome := .error fault, pool, store, events } pool where
  failed := fun _ _ => rfl
  succeeded := fun _ h => by cases h

namespace Weaver

/-- Neither a method nor a class that is instrumented disturbs what else is read against the
pool. -/
theorem instrument_spares_others (hbuilt : pool.Built) :
    (∀ method store, (weaver.instrument method pool store).Spares pool) ∧
      ∀ methods store, (weaver.instrumentAll methods pool store).Spares pool := by
  constructor
  · intro method store
    unfold instrument
    cases hprepared : (method.prepare weaver pool).outcome with
    | error fault =>
        simp only [hprepared]
        exact Instrumentation.spares_of_error _ _
    | ok prepared =>
        simp only [hprepared]
        exact Finishing.settle_spares _
          (fun result h => MethodSource.finish_pool hbuilt.sound h) _ _
  · intro methods store
    unfold instrumentAll
    cases hprepared : (weaver.prepareAll pool methods).outcome with
    | error fault =>
        simp only [hprepared]
        exact Instrumentation.spares_of_error _ _
    | ok prepared =>
        simp only [hprepared]
        exact Finishing.settle_spares _ (fun results h => finishAll_pool hbuilt.sound h) _ _

theorem instrument_equalsSource_pool (store : ObjectiveStore) :
    (equalsWeaver.instrument equalsSource poolOfEquals store).pool = poolOfSubstitute := by
  have hread : equalsSource.read poolOfEquals = .ok (some (equalsBody, equalsStream)) := rfl
  have hfinish : (equalsSource.finish (some ⟨equalsBody, wovenEquals⟩) poolOfEquals).outcome =
      .ok storedMethod := encode_equalsSource
  have hpool : (equalsSource.finish (some ⟨equalsBody, wovenEquals⟩) poolOfEquals).pool =
      poolOfSubstitute := by
    have hencode : equalsSource.finish (some ⟨equalsBody, wovenEquals⟩) poolOfEquals =
        equalsSource.encode ⟨equalsBody, wovenEquals⟩ poolOfEquals := rfl
    rw [hencode, MethodSource.encode, encodeStream_wovenEquals]
  rw [(instrument_of_finish store (prepare_of_weave hread weave_equalsStream) hfinish).2.1, hpool]

/-- The comparison makes its pool grow by seven constants; a class in which a method behind it
fails leaves the pool as it was. -/
theorem equalsSource_spares_others :
    poolOfEquals.Built ∧ poolOfEquals.slots = 7 ∧ poolOfSubstitute.slots = 14 ∧
      poolOfSubstitute.StandsFor poolOfEquals ∧
      (equalsWeaver.instrumentAll [equalsSource, deepSource] poolOfEquals .empty).outcome =
        .error (.stackOverflow 65535) ∧
      (equalsWeaver.instrumentAll [equalsSource, deepSource] poolOfEquals .empty).pool =
        poolOfEquals := by
  have hspares : (∀ method store, (equalsWeaver.instrument method poolOfEquals store).Spares
        poolOfEquals) ∧
      ∀ methods store, (equalsWeaver.instrumentAll methods poolOfEquals store).Spares
        poolOfEquals := instrument_spares_others poolOfEquals_built
  have hgrown := (hspares.1 equalsSource .empty).succeeded _ (instrument_equalsSource .empty)
  rw [instrument_equalsSource_pool] at hgrown
  have hfirst : (equalsSource.prepare equalsWeaver poolOfEquals).outcome =
      .ok (some ⟨equalsBody, wovenEquals⟩) := prepare_of_weave rfl weave_equalsStream
  have hsecond : (deepSource.prepare equalsWeaver poolOfEquals).outcome =
      .error (.stackOverflow 65535) := rfl
  have hfails : (equalsWeaver.instrumentAll [equalsSource, deepSource] poolOfEquals
      .empty).outcome = .error (.stackOverflow 65535) := by
    simp only [instrumentAll, prepareAll, hfirst, hsecond, Except.map]
  exact ⟨poolOfEquals_built, rfl, rfl, hgrown, hfails,
    (hspares.2 [equalsSource, deepSource] .empty).failed _ hfails⟩

end Weaver

end CallProbe
