import CallProbe.Instrumentation.Class
import CallProbe.Proofs.Instrumentation.Untouched

/-!
# A class is instrumented method by method

A class reads all its methods against the pool as it was, and a method that is instrumented
on its own is read against whatever the methods before it left. The two agree because a
pool only grows: what could be read stays as it was read.
-/

namespace CallProbe

open Outcome

variable {pool later : Pool} {method : MethodSource} {weaver : Weaver} {store : ObjectiveStore}

/-- Instruments methods one by one, each in the pool and the store that those before it left, up
to the first that fails. -/
def Weaver.instrumentEach (weaver : Weaver) (pool : Pool) (store : ObjectiveStore) :
    List MethodSource → Instrumentation (List InstrumentedMethod)
  | [] => { outcome := .ok [], pool, store }
  | method :: rest =>
    let first := weaver.instrument method pool store
    match first.outcome with
    | .error fault => { first with outcome := .error fault }
    | .ok instrumented =>
      let others := weaver.instrumentEach first.pool first.store rest
      { outcome := others.outcome.map (instrumented :: ·)
        pool := others.pool
        store := others.store
        events := first.events ++ others.events }

/-! ## Preparing against a pool that has grown -/

theorem MethodBody.stream_extends {body : MethodBody} {stream : List Instruction}
    (h : body.stream pool = .ok stream) (hext : later.Extends pool) :
    body.stream later = .ok stream := by
  obtain ⟨entries, htiles, hbound, hstream⟩ := stream_eq_ok_iff.1 h
  exact stream_eq_ok_iff.2 ⟨entries, htiles.extends hext, hbound, hstream⟩

namespace MethodSource

theorem read_eq_ok_none_iff : method.read pool = .ok none ↔ method.code = none := by
  unfold read
  cases method.code with
  | none => simp
  | some code => cases method.access.isBodyless <;> simp [bind_eq_ok_iff, Outcome.fmap_eq_ok_iff]

theorem read_extends {result : Option (MethodBody × List Instruction)}
    (h : method.read pool = .ok result) (hext : later.Extends pool) :
    method.read later = .ok result := by
  cases result with
  | none => exact read_eq_ok_none_iff.2 (read_eq_ok_none_iff.1 h)
  | some result =>
      obtain ⟨code, hcode, haccess, hbody, hstream⟩ := Weaver.read_eq_ok_some_iff.1 h
      exact Weaver.read_eq_ok_some_iff.2 ⟨code, hcode, haccess,
        MethodBody.ofBytes_extends hbody hext, MethodBody.stream_extends hstream hext⟩

/-- What could be prepared is prepared in the same way against a pool that has grown. -/
theorem prepare_extends {prepared : Option PreparedMethod}
    (h : (method.prepare weaver pool).outcome = .ok prepared) (hext : later.Extends pool) :
    method.prepare weaver later = method.prepare weaver pool := by
  unfold prepare at h ⊢
  cases hread : method.read pool with
  | error fault =>
      rw [hread] at h
      cases h
  | ok result => rw [read_extends hread hext]

/-! ## Finishing lets a pool grow -/

theorem finish_pool {prepared : Option PreparedMethod} {result : InstrumentedMethod}
    (hs : pool.Sound) (h : (method.finish prepared pool).outcome = .ok result) :
    (method.finish prepared pool).pool.Sound ∧
      (method.finish prepared pool).pool.Extends pool := by
  cases prepared with
  | none => exact ⟨hs, Pool.Extends.refl pool⟩
  | some prepared =>
      unfold finish at h ⊢
      by_cases hnone : prepared.woven.substituted = 0
      · simp only [if_pos hnone]
        exact ⟨hs, Pool.Extends.refl pool⟩
      · simp only [if_neg hnone] at h ⊢
        obtain ⟨_, _, _, hencoded, -⟩ := Weaver.encode_eq_ok h
        obtain ⟨_, _, -, hlays, -⟩ := encodeStream_eq_ok_iff.1 hencoded
        obtain ⟨hsound, hext, -⟩ := hlays.pool hs
        exact ⟨hsound, hext⟩

end MethodSource

/-! ## Whole classes -/

theorem finishAll_cons_eq_ok {prepared : Option PreparedMethod}
    {rest : List (MethodSource × Option PreparedMethod)} {results : List InstrumentedMethod}
    (h : (finishAll pool ((method, prepared) :: rest)).outcome = .ok results) :
    ∃ result others left, (method.finish prepared pool).outcome = .ok result ∧
      (method.finish prepared pool).pool = left ∧
      (finishAll left rest).outcome = .ok others ∧ results = result :: others ∧
      (finishAll pool ((method, prepared) :: rest)).pool = (finishAll left rest).pool := by
  rw [finishAll] at h ⊢
  cases hfirst : (method.finish prepared pool).outcome with
  | error fault =>
      simp only [hfirst] at h
      cases h
  | ok result =>
      simp only [hfirst] at h ⊢
      obtain ⟨others, hothers, hresults⟩ := map_eq_ok_iff.1 h
      exact ⟨result, others, _, rfl, rfl, hothers, hresults, rfl⟩

namespace Weaver

variable {rest methods : List MethodSource} {results : List InstrumentedMethod}

theorem prepareAll_cons_eq_ok {all : List (MethodSource × Option PreparedMethod)}
    (h : (weaver.prepareAll pool (method :: rest)).outcome = .ok all) :
    ∃ prepared others, (method.prepare weaver pool).outcome = .ok prepared ∧
      (weaver.prepareAll pool rest).outcome = .ok others ∧ all = (method, prepared) :: others ∧
      (weaver.prepareAll pool (method :: rest)).identifiers =
        (method.prepare weaver pool).identifiers ++ (weaver.prepareAll pool rest).identifiers := by
  rw [prepareAll] at h ⊢
  cases hfirst : (method.prepare weaver pool).outcome with
  | error fault =>
      simp only [hfirst] at h
      cases h
  | ok prepared =>
      simp only [hfirst] at h ⊢
      obtain ⟨others, hothers, hall⟩ := map_eq_ok_iff.1 h
      exact ⟨prepared, others, rfl, hothers, hall, trivial⟩

theorem instrumentEach_cons (rest : List MethodSource) {result : InstrumentedMethod} {left : Pool}
    {stock : ObjectiveStore}
    (houtcome : (weaver.instrument method pool store).outcome = .ok result)
    (hpool : (weaver.instrument method pool store).pool = left)
    (hstore : (weaver.instrument method pool store).store = stock) :
    (weaver.instrumentEach pool store (method :: rest)).outcome =
        (weaver.instrumentEach left stock rest).outcome.map (result :: ·) ∧
      (weaver.instrumentEach pool store (method :: rest)).pool =
        (weaver.instrumentEach left stock rest).pool ∧
      (weaver.instrumentEach pool store (method :: rest)).store =
        (weaver.instrumentEach left stock rest).store := by
  rw [instrumentEach]
  simp only [houtcome, hpool, hstore, and_self]

/-- What was prepared against a pool and finished in a later one could have been instrumented
there, method by method. -/
theorem instrumentEach_of_finishAll {all : List (MethodSource × Option PreparedMethod)}
    (hs : later.Sound) (hext : later.Extends pool)
    (hprepared : (weaver.prepareAll pool methods).outcome = .ok all)
    (hfinished : (finishAll later all).outcome = .ok results) :
    (weaver.instrumentEach later store methods).outcome = .ok results ∧
      (weaver.instrumentEach later store methods).pool = (finishAll later all).pool ∧
      (weaver.instrumentEach later store methods).store =
        store.registerAll (weaver.prepareAll pool methods).identifiers := by
  induction methods generalizing later store all results with
  | nil =>
      cases hprepared
      cases hfinished
      exact ⟨rfl, rfl, rfl⟩
  | cons method rest ih =>
      obtain ⟨prepared, others, hfirst, hothers, rfl, hids⟩ := prepareAll_cons_eq_ok hprepared
      obtain ⟨result, more, left, hresult, hleft, hmore, rfl, hpool⟩ :=
        finishAll_cons_eq_ok hfinished
      -- The first method is prepared as it was against `pool`, which `later` extends.
      have hsame := MethodSource.prepare_extends hfirst hext
      have hfirst' : (method.prepare weaver later).outcome = .ok prepared := by rwa [hsame]
      obtain ⟨houtcome, hleft', hstore⟩ := instrument_of_finish store hfirst' hresult
      obtain ⟨hsound, hgrown⟩ := MethodSource.finish_pool hs hresult
      rw [hleft] at hleft' hsound hgrown
      rw [hsame] at hstore
      obtain ⟨heach, heachpool, heachstore⟩ := instrumentEach_cons rest houtcome hleft' hstore
      obtain ⟨hrest, hrestpool, hreststore⟩ := ih hsound (hgrown.trans hext) hothers hmore
      rw [heach, heachpool, heachstore, hrest, hrestpool, hreststore, hpool, hids,
        ObjectiveStore.registerAll_append]
      exact ⟨rfl, rfl, rfl⟩

/-- A class that can be instrumented comes out as if its methods had been instrumented one by one,
each in the pool and the store that those before it left: with the same methods, the same pool and
the same objectives in the same order. -/
theorem instrumentAll_each (hbuilt : pool.Built)
    (hok : (weaver.instrumentAll methods pool store).outcome = .ok results) :
    (weaver.instrumentEach pool store methods).outcome = .ok results ∧
      (weaver.instrumentEach pool store methods).pool =
        (weaver.instrumentAll methods pool store).pool ∧
      (weaver.instrumentEach pool store methods).store =
        (weaver.instrumentAll methods pool store).store := by
  unfold instrumentAll at hok ⊢
  cases hprepared : (weaver.prepareAll pool methods).outcome with
  | error fault =>
      simp only [hprepared] at hok
      cases hok
  | ok all =>
      simp only [hprepared] at hok ⊢
      simp only [Finishing.settle, hok]
      exact instrumentEach_of_finishAll hbuilt.sound (Pool.Extends.refl pool) hprepared hok

/-! ## A class of two methods -/

/-- What comes of the class that has the comparison twice, in a method and in its initialiser. -/
def instrumentedPair : List InstrumentedMethod := [storedMethod, initializerSource.unchanged]

theorem instrumentAll_pair (store : ObjectiveStore) :
    (equalsWeaver.instrumentAll [equalsSource, initializerSource] poolOfEquals store).outcome =
      .ok instrumentedPair := by
  have hfirst : (equalsSource.prepare equalsWeaver poolOfEquals).outcome =
      .ok (some ⟨equalsBody, wovenEquals⟩) := prepare_of_weave rfl weave_equalsStream
  have hsecond : (initializerSource.prepare equalsWeaver poolOfEquals).outcome =
      .ok (some ⟨equalsBody, ⟨equalsStream, 5, 0⟩⟩) := rfl
  have hfinish : (equalsSource.finish (some ⟨equalsBody, wovenEquals⟩) poolOfEquals).outcome =
      .ok storedMethod := encode_equalsSource
  simp only [instrumentAll, prepareAll, hfirst, hsecond, Except.map, finishAll, hfinish]
  rfl

theorem instrumentEach_pair :
    poolOfEquals.Built ∧
      (equalsWeaver.instrumentAll [equalsSource, initializerSource] poolOfEquals .empty).outcome =
        .ok instrumentedPair ∧
      (equalsWeaver.instrumentEach poolOfEquals .empty [equalsSource, initializerSource]).outcome =
        .ok instrumentedPair ∧
      (equalsWeaver.instrumentEach poolOfEquals .empty [equalsSource, initializerSource]).pool =
        (equalsWeaver.instrumentAll [equalsSource, initializerSource] poolOfEquals .empty).pool ∧
      (equalsWeaver.instrumentEach poolOfEquals .empty [equalsSource, initializerSource]).store =
        (equalsWeaver.instrumentAll [equalsSource, initializerSource] poolOfEquals
          .empty).store :=
  ⟨poolOfEquals_built, instrumentAll_pair .empty,
    instrumentAll_each poolOfEquals_built (instrumentAll_pair .empty)⟩

end Weaver

end CallProbe
