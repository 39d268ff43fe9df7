import CallProbe.Proofs.CallSite.Folding
import CallProbe.Proofs.Objective.History
import Mathlib.Logic.Relation

/-!
# Walks that share a store

The methods of a class may be woven at the same time. Their walks take turns in any way;
what they share is the store, and a step registers one identifier at most. A walk never
asks the store, so the others cannot be seen from it.
-/

namespace CallProbe

/-- A method and its stream. -/
structure Task where
  method : MethodContext
  stream : List Instruction

/-- A walk, as far as it has come. -/
structure Walk where
  method : MethodContext
  ahead : List Instruction
  state : WeavingState := {}
  /-- What the last event has named and the store is not told yet. -/
  pending : List String := []
  /-- What the store was told, first one first. -/
  registered : List String := []
  result : Option Weaving := none

namespace Walk

def start (task : Task) : Walk := { method := task.method, ahead := task.stream }

/-- A step of a walk and its store. It registers what it has named before it goes on. -/
inductive Step (weaver : Weaver) : Walk × ObjectiveStore → Walk × ObjectiveStore → Prop
  | register {walk : Walk} {store : ObjectiveStore} {id : String} {rest : List String}
      (running : walk.result = none) (pending : walk.pending = id :: rest) :
      Step weaver (walk, store)
        ({ walk with pending := rest, registered := walk.registered ++ [id] },
          (store.register id).2)
  | visit {walk : Walk} {store : ObjectiveStore} {event : Instruction} {rest : List Instruction}
      {next : WeavingState} (running : walk.result = none) (told : walk.pending = [])
      (ahead : walk.ahead = event :: rest)
      (visited : weaver.visit walk.method walk.state event = (next, none)) :
      Step weaver (walk, store)
        ({ walk with
            ahead := rest
            state := next
            pending := weaver.named walk.method walk.state.position event }, store)
  | refuse {walk : Walk} {store : ObjectiveStore} {event : Instruction} {rest : List Instruction}
      {next : WeavingState} {fault : Fault} (running : walk.result = none)
      (told : walk.pending = []) (ahead : walk.ahead = event :: rest)
      (visited : weaver.visit walk.method walk.state event = (next, some fault)) :
      Step weaver (walk, store)
        ({ walk with
            ahead := rest
            state := next
            result := some (next.finish (.error fault)) }, store)
  | finish {walk : Walk} {store : ObjectiveStore} (running : walk.result = none)
      (told : walk.pending = []) (ahead : walk.ahead = []) :
      Step weaver (walk, store)
        ({ walk with result := some (weaver.weaveFrom walk.method walk.state []) }, store)

/-- What is true of a walk at any time, whatever store it registers with. -/
structure Follows (weaver : Weaver) (task : Task) (walk : Walk) : Prop where
  method : walk.method = task.method
  named : walk.registered ++ walk.pending = walk.state.identifiers.reverse
  /-- It is on the way of the walk that is alone. -/
  ahead : walk.result = none →
    weaver.weaveFrom task.method walk.state walk.ahead = weaver.weave task.method task.stream
  result : ∀ weaving, walk.result = some weaving →
    weaving = weaver.weave task.method task.stream ∧ walk.registered = weaving.identifiers

variable {weaver : Weaver} {task : Task} {walk next : Walk} {store after : ObjectiveStore}

theorem start_follows (task : Task) : (start task).Follows weaver task where
  method := rfl
  named := rfl
  ahead := fun _ => rfl
  result := fun _ h => nomatch h

/-- A visit leaves nothing out of what is named. -/
theorem Follows.visit_named (h : walk.Follows weaver task) (told : walk.pending = [])
    (event : Instruction) :
    walk.registered ++ weaver.named walk.method walk.state.position event =
      (weaver.visit walk.method walk.state event).1.identifiers.reverse := by
  have hnamed := h.named
  rw [told, List.append_nil] at hnamed
  rw [Weaver.visit_identifiers, hnamed]

/-- Each step stays on the way. -/
theorem Follows.step (h : walk.Follows weaver task)
    (hstep : Step weaver (walk, store) (next, after)) : next.Follows weaver task := by
  cases hstep with
  | register running pending =>
      have hnamed := h.named
      rw [pending] at hnamed
      exact
        { method := h.method
          named := by simpa using hnamed
          ahead := h.ahead
          result := fun _ hresult => nomatch running.symm.trans hresult }
  | @visit _ _ event _ state running told ahead visited =>
      have hnamed := h.visit_named told event
      have hway := h.ahead running
      rw [visited] at hnamed
      rw [ahead, Weaver.weaveFrom_cons, ← h.method, visited, h.method] at hway
      exact
        { method := h.method
          named := hnamed
          ahead := fun _ => hway
          result := fun _ hresult => nomatch running.symm.trans hresult }
  | @refuse _ _ event _ state fault running told ahead visited =>
      have hnamed := h.visit_named told event
      have hway := h.ahead running
      rw [visited, Weaver.named_of_fault visited, List.append_nil] at hnamed
      rw [ahead, Weaver.weaveFrom_cons, ← h.method, visited, h.method] at hway
      exact
        { method := h.method
          named := by rw [told, List.append_nil, hnamed]
          ahead := fun hresult => nomatch hresult
          result := by
            intro weaving hresult
            cases hresult
            exact ⟨hway, hnamed⟩ }
  | finish running told ahead =>
      have hnamed := h.named
      have hway := h.ahead running
      rw [told, List.append_nil] at hnamed
      rw [ahead, ← h.method] at hway
      exact
        { method := h.method
          named := by rw [told, List.append_nil, hnamed]
          ahead := fun hresult => nomatch hresult
          result := by
            intro weaving hresult
            cases hresult
            rw [← h.method]
            exact ⟨hway, hnamed⟩ }

/-- A step registers what it adds to the list, and that is all the store sees of it. -/
theorem Step.registers (h : Step weaver (walk, store) (next, after)) :
    ∃ ids, after = store.registerAll ids ∧ next.registered = walk.registered ++ ids := by
  cases h with
  | @register _ _ id _ _ _ => exact ⟨[id], rfl, rfl⟩
  | _ => exact ⟨[], rfl, (List.append_nil _).symm⟩

/-! ## A walk that is left alone -/

/-- What is pending can be registered. -/
theorem runs_pending (weaver : Weaver) (store : ObjectiveStore) (running : walk.result = none)
    {pending : List String} (hpending : walk.pending = pending) :
    Relation.ReflTransGen (Step weaver) (walk, store)
      ({ walk with pending := [], registered := walk.registered ++ pending },
        store.registerAll pending) := by
  induction pending generalizing walk store with
  | nil =>
      have hsame : { walk with pending := [], registered := walk.registered ++ [] } = walk := by
        rw [List.append_nil, ← hpending]
      rw [hsame]
      exact .refl
  | cons id rest ih =>
      have hfirst : Step weaver (walk, store)
          ({ walk with pending := rest, registered := walk.registered ++ [id] },
            (store.register id).2) := .register running hpending
      let told : Walk := { walk with pending := rest, registered := walk.registered ++ [id] }
      have hrest := @ih told (store.register id).2 running rfl
      rw [List.append_assoc, List.singleton_append] at hrest
      exact .head hfirst hrest

/-- A walk can go on to its end, whenever the others let it. -/
theorem exists_end (weaver : Weaver) (walk : Walk) (store : ObjectiveStore) :
    ∃ next after, Relation.ReflTransGen (Step weaver) (walk, store) (next, after) ∧
      next.result.isSome = true := by
  cases hresult : walk.result with
  | some weaving => exact ⟨walk, store, .refl, by rw [hresult]; rfl⟩
  | none =>
      -- Each event is visited when nothing is pending, so the induction is on what is ahead.
      induction hahead : walk.ahead generalizing walk store with
      | nil =>
          have htold := runs_pending weaver store hresult rfl
          exact ⟨_, _, htold.tail (.finish hresult rfl hahead), rfl⟩
      | cons event rest ih =>
          have htold := runs_pending weaver store hresult rfl
          cases hvisit : weaver.visit walk.method walk.state event with
          | mk state refusal =>
              cases refusal with
              | some fault => exact ⟨_, _, htold.tail (.refuse hresult rfl hahead hvisit), rfl⟩
              | none =>
                  have hvisited := htold.tail (.visit hresult rfl hahead hvisit)
                  let visited : Walk :=
                    { walk with
                      ahead := rest
                      state
                      pending := weaver.named walk.method walk.state.position event
                      registered := walk.registered ++ walk.pending }
                  rcases ih visited _ hresult rfl with ⟨next, after, hruns, hended⟩
                  exact ⟨next, after, hvisited.trans hruns, hended⟩

/-- What holds step by step of a walk and its store, all the way. -/
theorem Follows.runs {first last : Walk × ObjectiveStore} (h : first.1.Follows weaver task)
    (hruns : Relation.ReflTransGen (Step weaver) first last) :
    last.1.Follows weaver task ∧
      ∃ ids, last.2 = first.2.registerAll ids ∧ last.1.registered = first.1.registered ++ ids := by
  induction hruns with
  | refl => exact ⟨h, [], rfl, (List.append_nil _).symm⟩
  | tail _ hstep ih =>
      rcases ih with ⟨hfollows, ids, hstore, hregistered⟩
      rcases hstep.registers with ⟨more, hafter, hmore⟩
      refine ⟨hfollows.step hstep, ids ++ more, ?_, ?_⟩
      · rw [hafter, hstore, ObjectiveStore.registerAll_append]
      · rw [hmore, hregistered, List.append_assoc]

/-- Left alone from the start, a walk does to the store what weaving its stream does. -/
theorem start_runs (weaver : Weaver) (task : Task) (store : ObjectiveStore) :
    ∃ next, Relation.ReflTransGen (Step weaver) (start task, store)
        (next, (weaver.weaveInto task.method task.stream store).2) ∧
      next.result.isSome = true := by
  rcases exists_end weaver (start task) store with ⟨next, after, hruns, hended⟩
  rcases (start_follows task).runs hruns with ⟨hfollows, ids, hafter, hregistered⟩
  rcases Option.isSome_iff_exists.1 hended with ⟨weaving, hresult⟩
  rcases hfollows.result weaving hresult with ⟨hweaving, hidentifiers⟩
  have hids : ids = (weaver.weave task.method task.stream).identifiers := by
    rw [← hweaving, ← hidentifiers, hregistered]
    rfl
  have hsame : after = (weaver.weaveInto task.method task.stream store).2 := by
    rw [Weaver.weaveInto, ← hids]
    exact hafter
  rw [hsame] at hruns
  exact ⟨next, hruns, hended⟩

end Walk

/-- Walks that take turns, and their store. -/
structure SharedWalks where
  walks : List Walk
  store : ObjectiveStore

namespace SharedWalks

def start (tasks : List Task) (store : ObjectiveStore) : SharedWalks :=
  { walks := tasks.map Walk.start, store }

/-- Some walk takes a step; the others stay where they are. -/
inductive Step (weaver : Weaver) : SharedWalks → SharedWalks → Prop
  | turn {front back : List Walk} {walk next : Walk} {store after : ObjectiveStore}
      (step : Walk.Step weaver (walk, store) (next, after)) :
      Step weaver ⟨front ++ walk :: back, store⟩ ⟨front ++ next :: back, after⟩

/-- From `first` to `last` by turns, whoever takes them. -/
abbrev Runs (weaver : Weaver) (first last : SharedWalks) : Prop :=
  Relation.ReflTransGen (Step weaver) first last

/-- No walk has anything left to do. -/
def Ended (shared : SharedWalks) : Prop :=
  ∀ walk ∈ shared.walks, walk.result.isSome = true

/-- What is true at any time of walks that have started with `before`. -/
structure Follows (weaver : Weaver) (tasks : List Task) (before : ObjectiveStore)
    (shared : SharedWalks) : Prop where
  walks : List.Forall₂ (Walk.Follows weaver) tasks shared.walks
  /-- The store was told what the walks have registered, in some order. -/
  store : ∃ log, shared.store = before.registerAll log ∧
    log.Perm (shared.walks.flatMap (·.registered))

variable {weaver : Weaver} {tasks : List Task} {before : ObjectiveStore} {shared next : SharedWalks}

theorem start_follows : (start tasks before).Follows weaver tasks before where
  walks := List.forall₂_map_right_iff.2 (List.forall₂_same.2 fun task _ => Walk.start_follows task)
  store := by
    refine ⟨[], rfl, ?_⟩
    simp [start, Walk.start]

private theorem forall₂_exchange {front back : List Walk} {walk next : Walk}
    (h : List.Forall₂ (Walk.Follows weaver) tasks (front ++ walk :: back))
    (hnext : ∀ task, walk.Follows weaver task → next.Follows weaver task) :
    List.Forall₂ (Walk.Follows weaver) tasks (front ++ next :: back) := by
  induction front generalizing tasks with
  | nil =>
      cases h with
      | cons hwalk hback => exact .cons (hnext _ hwalk) hback
  | cons other front ih =>
      cases h with
      | cons hother hrest => exact .cons hother (ih hrest)

theorem Follows.step (h : shared.Follows weaver tasks before) (hstep : Step weaver shared next) :
    next.Follows weaver tasks before := by
  cases hstep with
  | @turn front back walk next store after step =>
      rcases h.store with ⟨log, hstore, hlog⟩
      rcases step.registers with ⟨ids, hafter, hregistered⟩
      refine ⟨forall₂_exchange h.walks fun task hwalk => hwalk.step step, log ++ ids, ?_, ?_⟩
      · rw [ObjectiveStore.registerAll_append, ← hstore]
        exact hafter
      · have hmoved := hlog.append_right ids
        simp only [List.flatMap_append, List.flatMap_cons, List.append_assoc, hregistered]
          at hmoved ⊢
        refine hmoved.trans ?_
        exact ((List.perm_append_comm).append_left _).append_left _

theorem Follows.runs (h : shared.Follows weaver tasks before) (hruns : Runs weaver shared next) :
    next.Follows weaver tasks before := by
  induction hruns with
  | refl => exact h
  | tail _ hstep ih => exact ih.step hstep

/-- What all walks have named in the end. -/
theorem registered_of_ended {walks : List Walk}
    (h : List.Forall₂ (Walk.Follows weaver) tasks walks)
    (hended : ∀ walk ∈ walks, walk.result.isSome = true) :
    walks.flatMap (·.registered) =
      tasks.flatMap fun task => (weaver.weave task.method task.stream).identifiers := by
  induction h with
  | nil => rfl
  | cons hwalk _ ih =>
      rcases Option.isSome_iff_exists.1 (hended _ List.mem_cons_self) with ⟨weaving, hresult⟩
      rcases hwalk.result weaving hresult with ⟨rfl, hregistered⟩
      rw [List.flatMap_cons, List.flatMap_cons, hregistered,
        ih fun walk hwalk => hended walk (List.mem_cons_of_mem _ hwalk)]

/-- The turns of one walk while the others wait. -/
theorem runs_turns (front back : List Walk) {walk next : Walk} {store after : ObjectiveStore}
    (h : Relation.ReflTransGen (Walk.Step weaver) (walk, store) (next, after)) :
    Runs weaver ⟨front ++ walk :: back, store⟩ ⟨front ++ next :: back, after⟩ :=
  Relation.ReflTransGen.lift
    (fun one : Walk × ObjectiveStore => (⟨front ++ one.1 :: back, one.2⟩ : SharedWalks))
    (fun _ _ step => Step.turn step) _ _ h

/-- Whatever has happened, all walks can still come to their ends. -/
theorem exists_ended (shared : SharedWalks) :
    ∃ last, Runs weaver shared last ∧ last.Ended := by
  have hbehind (front back : List Walk) (store : ObjectiveStore)
      (hfront : ∀ walk ∈ front, walk.result.isSome = true) :
      ∃ last, Runs weaver ⟨front ++ back, store⟩ last ∧ last.Ended := by
    induction back generalizing front store with
    | nil => exact ⟨_, .refl, by simpa [Ended] using hfront⟩
    | cons walk back ih =>
        rcases walk.exists_end weaver store with ⟨next, after, hruns, hnext⟩
        have hmore : ∀ walk ∈ front ++ [next], walk.result.isSome = true := by
          intro walk hwalk
          rcases List.mem_append.1 hwalk with hold | hnew
          · exact hfront walk hold
          · rwa [List.mem_singleton.1 hnew]
        rcases ih (front ++ [next]) after hmore with ⟨last, hlast, hended⟩
        rw [List.append_assoc, List.singleton_append] at hlast
        exact ⟨last, (runs_turns front back hruns).trans hlast, hended⟩
  exact hbehind [] shared.walks shared.store fun _ h => nomatch h

end SharedWalks

namespace Weaver

/-- Weaves one stream after the other, as long as there are any. -/
def weaveEach (weaver : Weaver) (tasks : List Task) (store : ObjectiveStore) : ObjectiveStore :=
  tasks.foldl (fun store task => (weaver.weaveInto task.method task.stream store).2) store

theorem weaveEach_eq {weaver : Weaver} (tasks : List Task) (store : ObjectiveStore) :
    weaver.weaveEach tasks store = store.registerAll
      (tasks.flatMap fun task => (weaver.weave task.method task.stream).identifiers) := by
  induction tasks generalizing store with
  | nil => rfl
  | cons task tasks ih =>
      rw [List.flatMap_cons, ObjectiveStore.registerAll_append]
      exact ih _

end Weaver

namespace SharedWalks

/-- What walks over the streams of `tasks` that share a store, at first `before`, have to come to,
in whatever turns they have got as far as `shared`. -/
structure Unordered (weaver : Weaver) (tasks : List Task) (before : ObjectiveStore)
    (shared : SharedWalks) : Prop where
  /-- Every walk ends, well or not, like the same walk alone with any store. -/
  alone : List.Forall₂
    (fun (task : Task) (walk : Walk) => ∀ weaving, walk.result = some weaving → ∀ store,
      weaving = (weaver.weaveInto task.method task.stream store).1) tasks shared.walks
  /-- No walk is ever in the way of another. -/
  completes : ∃ last, Runs weaver shared last ∧ last.Ended
  /-- In the end there are the objectives of one walk after the other. -/
  inOrder : shared.Ended → shared.store.SameSet (weaver.weaveEach tasks before)
  /-- And of any other turns. -/
  sameSet : shared.Ended → ∀ other, Runs weaver (start tasks before) other → other.Ended →
    shared.store.SameSet other.store

variable {weaver : Weaver} {tasks : List Task} {before : ObjectiveStore} {shared : SharedWalks}

theorem Follows.store_of_ended (h : shared.Follows weaver tasks before) (hended : shared.Ended) :
    ∃ log, shared.store = before.registerAll log ∧ log.Perm
      (tasks.flatMap fun task => (weaver.weave task.method task.stream).identifiers) := by
  rcases h.store with ⟨log, hstore, hlog⟩
  rw [registered_of_ended h.walks hended] at hlog
  exact ⟨log, hstore, hlog⟩

/-- The order in which walks take turns cannot be seen. -/
theorem runs_unordered (hruns : Runs weaver (start tasks before) shared) :
    Unordered weaver tasks before shared where
  alone := (start_follows.runs hruns).walks.imp fun _ _ hwalk weaving hresult _ =>
    (hwalk.result weaving hresult).1
  completes := exists_ended shared
  inOrder := by
    intro hended
    rcases (start_follows.runs hruns).store_of_ended hended with ⟨log, hstore, hlog⟩
    rw [hstore, Weaver.weaveEach_eq]
    exact ObjectiveStore.registerAll_sameSet hlog
  sameSet := by
    intro hended other hother hotherEnded
    rcases (start_follows.runs hruns).store_of_ended hended with ⟨log, hstore, hlog⟩
    rcases (start_follows.runs hother).store_of_ended hotherEnded with ⟨others, hothers, hperm⟩
    rw [hstore, hothers]
    exact ObjectiveStore.registerAll_sameSet (hlog.trans hperm.symm)

/-! ## Two streams that meet on a line -/

open Weaver (equalsWeaver loopMethod equalsCall select_equalsCall)

/-- A call on line 12. -/
def headerTask : Task where
  method := loopMethod
  stream := [.line 12 0, .invoke (equalsCall none)]

/-- A call on line 13, then one on line 12 too. -/
def bodyTask : Task where
  method := loopMethod
  stream := [.line 13 0, .invoke (equalsCall none), .line 12 3, .invoke (equalsCall none)]

private theorem header_identifiers :
    (equalsWeaver.weave headerTask.method headerTask.stream).identifiers =
      ["MethodReplacement_at_p.Loop_00012_0_BOOLEAN_true",
        "MethodReplacement_at_p.Loop_00012_0_BOOLEAN_false"] := by
  have hline : Objective.identifiers (Objective.template "p/Loop" 12 0) .boolean =
      ["MethodReplacement_at_p.Loop_00012_0_BOOLEAN_true",
        "MethodReplacement_at_p.Loop_00012_0_BOOLEAN_false"] := by cbv
  rw [← hline]
  simp only [headerTask, Weaver.weave, Weaver.weaveFrom, select_equalsCall]
  rfl

private theorem body_identifiers :
    (equalsWeaver.weave bodyTask.method bodyTask.stream).identifiers =
      ["MethodReplacement_at_p.Loop_00013_0_BOOLEAN_true",
        "MethodReplacement_at_p.Loop_00013_0_BOOLEAN_false",
        "MethodReplacement_at_p.Loop_00012_0_BOOLEAN_true",
        "MethodReplacement_at_p.Loop_00012_0_BOOLEAN_false"] := by
  have hlines : Objective.identifiers (Objective.template "p/Loop" 13 0) .boolean ++
      Objective.identifiers (Objective.template "p/Loop" 12 0) .boolean =
      ["MethodReplacement_at_p.Loop_00013_0_BOOLEAN_true",
        "MethodReplacement_at_p.Loop_00013_0_BOOLEAN_false",
        "MethodReplacement_at_p.Loop_00012_0_BOOLEAN_true",
        "MethodReplacement_at_p.Loop_00012_0_BOOLEAN_false"] := by cbv
  rw [← hlines]
  simp only [bodyTask, Weaver.weave, Weaver.weaveFrom, select_equalsCall]
  rfl

/-- Whichever of the two goes first numbers the objectives; which objectives there are, neither
decides. -/
theorem header_body_unordered : ∃ headerFirst bodyFirst : SharedWalks,
    Runs equalsWeaver (start [headerTask, bodyTask] .empty) headerFirst ∧
      Runs equalsWeaver (start [headerTask, bodyTask] .empty) bodyFirst ∧
      Unordered equalsWeaver [headerTask, bodyTask] .empty headerFirst ∧
      headerFirst.store.SameSet bodyFirst.store ∧
      headerFirst.store.ids.toList =
        ["MethodReplacement_at_p.Loop_00012_0_BOOLEAN_true",
          "MethodReplacement_at_p.Loop_00012_0_BOOLEAN_false",
          "MethodReplacement_at_p.Loop_00013_0_BOOLEAN_true",
          "MethodReplacement_at_p.Loop_00013_0_BOOLEAN_false"] ∧
      bodyFirst.store.ids.toList =
        ["MethodReplacement_at_p.Loop_00013_0_BOOLEAN_true",
          "MethodReplacement_at_p.Loop_00013_0_BOOLEAN_false",
          "MethodReplacement_at_p.Loop_00012_0_BOOLEAN_true",
          "MethodReplacement_at_p.Loop_00012_0_BOOLEAN_false"] := by
  rcases Walk.start_runs equalsWeaver headerTask .empty with
    ⟨header, hheader, hheaderEnded⟩
  rcases Walk.start_runs equalsWeaver bodyTask
    (equalsWeaver.weaveInto headerTask.method headerTask.stream .empty).2 with
    ⟨body, hbody, hbodyEnded⟩
  rcases Walk.start_runs equalsWeaver bodyTask .empty with
    ⟨body', hbody', hbodyEnded'⟩
  rcases Walk.start_runs equalsWeaver headerTask
    (equalsWeaver.weaveInto bodyTask.method bodyTask.stream .empty).2 with
    ⟨header', hheader', hheaderEnded'⟩
  have hfirst : Runs equalsWeaver (start [headerTask, bodyTask] .empty) ⟨[header, body], _⟩ :=
    (runs_turns [] [Walk.start bodyTask] hheader).trans
      (runs_turns [header] [] hbody)
  have hsecond : Runs equalsWeaver (start [headerTask, bodyTask] .empty) ⟨[header', body'], _⟩ :=
    (runs_turns [Walk.start headerTask] [] hbody').trans
      (runs_turns [] [body'] hheader')
  have hfirstEnded (store : ObjectiveStore) : Ended ⟨[header, body], store⟩ := by
    simp [Ended, hheaderEnded, hbodyEnded]
  have hsecondEnded (store : ObjectiveStore) : Ended ⟨[header', body'], store⟩ := by
    simp [Ended, hheaderEnded', hbodyEnded']
  have hunordered := runs_unordered hfirst
  have hsame := hunordered.sameSet (hfirstEnded _) _ hsecond (hsecondEnded _)
  have hids (ids others : List String) :
      ((ObjectiveStore.empty.registerAll ids).registerAll others).ids.toList =
        (ids ++ others).eraseDups := by
    rw [← ObjectiveStore.registerAll_append, ObjectiveStore.ids_registerAll_empty]
  refine ⟨_, _, hfirst, hsecond, hunordered, hsame, (hids _ _).trans ?_, (hids _ _).trans ?_⟩
  · rw [header_identifiers, body_identifiers]
    rfl
  · rw [header_identifiers, body_identifiers]
    rfl

end SharedWalks

end CallProbe
