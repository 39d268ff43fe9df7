import CallProbe.Proofs.CallSite.Weaving
import CallProbe.Proofs.Catalog.Balance
import Mathlib.Data.List.Infix

/-!
# Operand stacks of woven methods

How deep the stack can be in front of each instruction, along every way that control may
take through a stream. Weaving keeps all of these depths; it adds one place to each
replaced call, behind the push, where the stack is one slot deeper.
-/

namespace CallProbe

namespace Opcode

def jsr : UInt8 := 0xA8
def ret : UInt8 := 0xA9

end Opcode

/-- Whether weaving may put an instruction into a stream. -/
def Instruction.isInserted : Instruction → Bool
  | .loadString _ | .invoke _ => true
  | .simple opcode => opcode == Opcode.aconstNull
  | _ => false

/-- What a method does that weaving leaves alone: the effects of the other instructions, whether
control passes them, and the labels where exceptions are caught. -/
structure StackMachine where
  effect : Instruction → StackEffect
  passes : Instruction → Bool
  handlers : List Label

namespace StackMachine

/-- What an event takes from the stack and puts on it. -/
def effectOf (machine : StackMachine) : Instruction → StackEffect
  | .label _ | .line _ _ => { taken := 0, put := 0 }
  | .loadString _ => { taken := 0, put := 1 }
  | .simple opcode =>
    if opcode = Opcode.aconstNull then { taken := 0, put := 1 } else machine.effect (.simple opcode)
  | .invoke call =>
    match MethodDescriptor.parse call.descriptor with
    | .ok descriptor => descriptor.effect call.kind.isStatic
    | .error _ => machine.effect (.invoke call)
  | event => machine.effect event

/-- Whether control may go on behind an event. -/
def goesOn (machine : StackMachine) : Instruction → Bool
  | .label _ | .line _ _ | .loadString _ | .invoke _ => true
  | .simple opcode => opcode == Opcode.aconstNull || machine.passes (.simple opcode)
  | event => machine.passes event

/-- Control can come to stand in front of the rest of a stream with some depth of the stack. -/
inductive Reaches (machine : StackMachine) (stream : List Instruction) :
    List Instruction → Nat → Prop
  | start : Reaches machine stream stream 0
  /-- The exception is all that is on the stack where it is caught. -/
  | caught {label : Label} {rest : List Instruction} (handler : label ∈ machine.handlers)
      (place : .label label :: rest <:+ stream) : Reaches machine stream (.label label :: rest) 1
  | next {event : Instruction} {rest : List Instruction} {depth after : Nat}
      (reached : Reaches machine stream (event :: rest) depth)
      (effect : (machine.effectOf event).on? depth = some after)
      (goesOn : machine.goesOn event = true) : Reaches machine stream rest after
  | jump {event : Instruction} {rest there : List Instruction} {depth after : Nat} {label : Label}
      (reached : Reaches machine stream (event :: rest) depth)
      (effect : (machine.effectOf event).on? depth = some after)
      (target : label ∈ event.targets) (place : .label label :: there <:+ stream) :
      Reaches machine stream (.label label :: there) after
  /-- A subroutine goes back behind an instruction that has jumped to one. -/
  | back {index : UInt16} {wide : Bool} {opcode : UInt8} {target : Label}
      {rest there : List Instruction} {depth after : Nat}
      (reached : Reaches machine stream (.slot Opcode.ret index wide :: rest) depth)
      (effect : (machine.effectOf (.slot Opcode.ret index wide)).on? depth = some after)
      (subroutine : opcode = Opcode.jsr ∨ opcode = Opcode.jsrWide)
      (place : .jump opcode target :: there <:+ stream) : Reaches machine stream there after

/-- The stack is nowhere deeper than `limit`. -/
def Within (machine : StackMachine) (stream : List Instruction) (limit : Nat) : Prop :=
  ∀ rest depth, machine.Reaches stream rest depth → depth ≤ limit

theorem Reaches.suffix {machine : StackMachine} {stream rest : List Instruction} {depth : Nat}
    (h : machine.Reaches stream rest depth) : rest <:+ stream := by
  induction h with
  | start => exact List.suffix_refl _
  | caught _ place => exact place
  | next _ _ _ ih => exact (List.suffix_cons _ _).trans ih
  | jump _ _ _ place _ => exact place
  | back _ _ _ place _ => exact (List.suffix_cons _ _).trans place

end StackMachine

namespace Weaver

variable {weaver : Weaver} {method : MethodContext} {stream : List Instruction}

/-- Every function of the registry was made by `create` and takes no more than a reference where the
receiver stands. -/
structure Receives (weaver : Weaver) : Prop where
  created : ∀ provider ∈ weaver.registry.providers, ∀ function ∈ provider.functions,
    function.Created
  takesReceiver : ∀ provider ∈ weaver.registry.providers, ∀ function ∈ provider.functions,
    function.TakesReceiver

/-! ## One event -/

/-- A substitute does one slot deeper what the call does that it stands in for. -/
theorem Receives.effectOf_call (h : weaver.Receives) (machine : StackMachine) {call : Call}
    {candidate : Candidate} (hchosen : weaver.chosen? method (.invoke call) = some candidate)
    (depth : Nat) :
    (machine.effectOf (.invoke candidate.call)).on? (depth + 1) =
      (machine.effectOf (.invoke call)).on? depth := by
  rcases exists_accepts_of_select (select_of_chosen hchosen) with
    ⟨type, descriptor, hmem, hparse, haccepts⟩
  rcases exists_provider_of_mem_eligible hmem with ⟨provider, hprovider, hfunction⟩
  have hcreated := h.created provider hprovider candidate hfunction
  have hreceiver := h.takesReceiver provider hprovider candidate hfunction
  have hbalances := (Candidate.balances_iff_takesReceiver hcreated haccepts).2 hreceiver
  have hsubstitute : machine.effectOf (.invoke candidate.call) =
      candidate.descriptor.effect true := by
    simp only [StackMachine.effectOf, Candidate.call, Call.new, hcreated.parse_text]
    rfl
  have hcall : machine.effectOf (.invoke call) = descriptor.effect call.kind.isStatic := by
    simp only [StackMachine.effectOf, hparse]
  rw [hsubstitute, hcall, hbalances.net]

/-- What is pushed takes one slot, and control goes on behind it. -/
theorem effectOf_correlationAfter (weaver : Weaver) (method : MethodContext)
    (machine : StackMachine) (before : List Instruction) :
    machine.effectOf (weaver.correlationAfter method before) = { taken := 0, put := 1 } ∧
      machine.goesOn (weaver.correlationAfter method before) = true := by
  unfold correlationAfter
  split
  · exact ⟨rfl, rfl⟩
  · exact ⟨rfl, rfl⟩

theorem reaches_pushed {machine : StackMachine} {events before ahead : List Instruction}
    {depth : Nat}
    (h : machine.Reaches events (weaver.correlationAfter method before :: ahead) depth) :
    machine.Reaches events ahead (depth + 1) := by
  have hpush := weaver.effectOf_correlationAfter method machine before
  have hdeeper : (machine.effectOf (weaver.correlationAfter method before)).on? depth =
      some (depth + 1) := by
    rw [hpush.1]
    rfl
  exact h.next hdeeper hpush.2

/-! ## Places -/

theorem eachAfter_suffix (weaver : Weaver) (method : MethodContext)
    {before rest : List Instruction} (h : stream = before ++ rest) :
    eachAfter (weaver.pieceAfter method) before rest <:+
      eachAfter (weaver.pieceAfter method) [] stream := by
  rw [h, eachAfter_append, List.nil_append]
  exact List.suffix_append _ _

theorem isInserted_correlationAfter (before : List Instruction) :
    (weaver.correlationAfter method before).isInserted = true := by
  unfold correlationAfter
  split <;> rfl

/-- What is not inserted stands in a woven stream where it has stood. -/
theorem exists_split_of_suffix {before rest ahead : List Instruction} {event : Instruction}
    (hold : event.isInserted = false)
    (h : event :: ahead <:+ eachAfter (weaver.pieceAfter method) before rest) :
    ∃ front back, rest = front ++ event :: back ∧
      ahead = eachAfter (weaver.pieceAfter method) (before ++ front ++ [event]) back := by
  induction rest generalizing before with
  | nil => simp [eachAfter] at h
  | cons first rest ih =>
      have hlater (hrest : event :: ahead <:+
          eachAfter (weaver.pieceAfter method) (before ++ [first]) rest) :
          ∃ front back, first :: rest = front ++ event :: back ∧
            ahead = eachAfter (weaver.pieceAfter method) (before ++ front ++ [event]) back := by
        rcases ih hrest with ⟨front, back, hsplit, hahead⟩
        rw [List.append_assoc before, List.singleton_append] at hahead
        exact ⟨first :: front, back, by rw [hsplit, List.cons_append], hahead⟩
      rw [eachAfter] at h
      have hcases : weaver.pieceAfter method before first = [first] ∨ _ :=
        pieceAfter_cases before first
      rcases hcases with hkept | ⟨call, candidate, -, hpiece⟩
      · rw [hkept, List.singleton_append, List.suffix_cons_iff] at h
        rcases h with heq | hrest
        · cases heq
          exact ⟨[], rest, rfl, by rw [List.append_nil]⟩
        · exact hlater hrest
      · rw [hpiece, List.cons_append, List.singleton_append, List.suffix_cons_iff,
          List.suffix_cons_iff] at h
        rcases h with hfirst | hsecond | hrest
        · cases hfirst
          cases hold.symm.trans (isInserted_correlationAfter before)
        · cases hsecond
          cases hold
        · exact hlater hrest

/-! ## Ways through the two streams -/

/-- Where control of a woven stream stands, next to where the original has come with the same stack:
at the same place, or behind the push for a call that the original is about to make. -/
inductive Alongside (weaver : Weaver) (method : MethodContext) (machine : StackMachine)
    (stream : List Instruction) : List Instruction → Nat → Prop
  | same {before rest : List Instruction} {depth : Nat} (split : stream = before ++ rest)
      (reached : machine.Reaches stream rest depth) :
      Alongside weaver method machine stream
        (eachAfter (weaver.pieceAfter method) before rest) depth
  | between {before rest : List Instruction} {call : Call} {candidate : Candidate} {depth : Nat}
      (split : stream = before ++ .invoke call :: rest)
      (chosen : weaver.chosen? method (.invoke call) = some candidate)
      (reached : machine.Reaches stream (.invoke call :: rest) depth) :
      Alongside weaver method machine stream
        (.invoke candidate.call ::
          eachAfter (weaver.pieceAfter method) (before ++ [.invoke call]) rest) (depth + 1)

/-- The next event of a woven stream, next to what the original has come to. -/
inductive Coming (weaver : Weaver) (method : MethodContext) (machine : StackMachine)
    (stream : List Instruction) : Instruction → List Instruction → Nat → Prop
  | kept {before rest : List Instruction} {event : Instruction} {depth : Nat}
      (split : stream = before ++ event :: rest)
      (reached : machine.Reaches stream (event :: rest) depth) :
      Coming weaver method machine stream event
        (eachAfter (weaver.pieceAfter method) (before ++ [event]) rest) depth
  | push {before rest : List Instruction} {call : Call} {candidate : Candidate} {depth : Nat}
      (split : stream = before ++ .invoke call :: rest)
      (chosen : weaver.chosen? method (.invoke call) = some candidate)
      (reached : machine.Reaches stream (.invoke call :: rest) depth) :
      Coming weaver method machine stream (weaver.correlationAfter method before)
        (.invoke candidate.call ::
          eachAfter (weaver.pieceAfter method) (before ++ [.invoke call]) rest) depth
  | substitute {before rest : List Instruction} {call : Call} {candidate : Candidate} {depth : Nat}
      (split : stream = before ++ .invoke call :: rest)
      (chosen : weaver.chosen? method (.invoke call) = some candidate)
      (reached : machine.Reaches stream (.invoke call :: rest) depth) :
      Coming weaver method machine stream (.invoke candidate.call)
        (eachAfter (weaver.pieceAfter method) (before ++ [.invoke call]) rest) (depth + 1)

variable {machine : StackMachine}

theorem eachAfter_cons_of_kept {before rest : List Instruction} {event : Instruction}
    (h : weaver.chosen? method event = none) :
    eachAfter (weaver.pieceAfter method) before (event :: rest) =
      event :: eachAfter (weaver.pieceAfter method) (before ++ [event]) rest := by
  rw [eachAfter, pieceAfter_of_kept h, List.singleton_append]

theorem chosen?_of_mem_targets {event : Instruction} {label : Label}
    (h : label ∈ event.targets) : weaver.chosen? method event = none := by
  cases event with
  | invoke call => cases h
  | _ => rfl

theorem Alongside.coming {ahead : List Instruction} {event : Instruction} {depth : Nat}
    (h : weaver.Alongside method machine stream (event :: ahead) depth) :
    weaver.Coming method machine stream event ahead depth := by
  generalize hplace : event :: ahead = place at h
  cases h with
  | between split chosen reached =>
      cases hplace
      exact .substitute split chosen reached
  | @same before rest _ split reached =>
      cases rest with
      | nil => cases hplace
      | cons first rest =>
          cases hchosen : weaver.chosen? method first with
          | none =>
              rw [eachAfter_cons_of_kept hchosen] at hplace
              cases hplace
              exact .kept split reached
          | some candidate =>
              cases first with
              | invoke call =>
                  rw [eachAfter, pieceAfter, hchosen] at hplace
                  cases hplace
                  exact .push split hchosen reached
              | _ => cases hchosen

theorem Coming.exists_split {event : Instruction} {ahead : List Instruction} {depth : Nat}
    (h : weaver.Coming method machine stream event ahead depth)
    (hold : event.isInserted = false) :
    ∃ before rest, stream = before ++ event :: rest ∧
      machine.Reaches stream (event :: rest) depth := by
  cases h with
  | kept split reached => exact ⟨_, _, split, reached⟩
  | push _ _ _ => cases hold.symm.trans (isInserted_correlationAfter _)
  | substitute _ _ _ => cases hold

theorem isInserted_of_mem_targets {event : Instruction} {label : Label}
    (h : label ∈ event.targets) : event.isInserted = false := by
  cases event with
  | invoke call => cases h
  | loadString text => cases h
  | simple opcode => cases h
  | _ => rfl

private theorem eq_append_of_splits {before front rest : List Instruction} {event : Instruction}
    (h : stream = before ++ rest) (hfront : front ++ event :: rest = stream) :
    before = front ++ [event] := by
  have hboth : front ++ [event] ++ rest = before ++ rest := by
    rw [List.append_assoc, List.singleton_append, hfront, h]
  exact (List.append_cancel_right hboth).symm

/-- What the original can reach, the woven stream reaches with the same depth. -/
theorem Receives.reaches (h : weaver.Receives) (method : MethodContext) {rest : List Instruction}
    {depth : Nat} (hreached : machine.Reaches stream rest depth) {before : List Instruction}
    (hsplit : stream = before ++ rest) :
    machine.Reaches (eachAfter (weaver.pieceAfter method) [] stream)
      (eachAfter (weaver.pieceAfter method) before rest) depth := by
  induction hreached generalizing before with
  | start =>
      have hnone : before = [] := List.self_eq_append_left.1 hsplit
      rw [hnone]
      exact .start
  | caught handler place =>
      have hplace := eachAfter_suffix weaver method hsplit
      rw [eachAfter_cons_of_kept rfl] at hplace ⊢
      exact .caught handler hplace
  | @next event rest depth after reached effect goesOn ih =>
      rcases reached.suffix with ⟨front, hfront⟩
      have hevent := ih hfront.symm
      rw [eq_append_of_splits hsplit hfront]
      cases hchosen : weaver.chosen? method event with
      | none =>
          rw [eachAfter_cons_of_kept hchosen] at hevent
          exact .next hevent effect goesOn
      | some candidate =>
          cases event with
          | invoke call =>
              have hcall := h.effectOf_call machine hchosen depth
              rw [eachAfter, pieceAfter, hchosen] at hevent
              exact (reaches_pushed hevent).next (hcall.trans effect) rfl
          | _ => cases hchosen
  | jump reached effect target place ih =>
      rcases reached.suffix with ⟨front, hfront⟩
      have hevent := ih hfront.symm
      have hplace := eachAfter_suffix weaver method hsplit
      rw [eachAfter_cons_of_kept (chosen?_of_mem_targets target)] at hevent
      rw [eachAfter_cons_of_kept rfl] at hplace ⊢
      exact .jump hevent effect target hplace
  | @back _ _ opcode target _ there _ _ reached effect subroutine place ih =>
      rcases reached.suffix with ⟨front, hfront⟩
      rcases place with ⟨caller, hcaller⟩
      have hevent := ih hfront.symm
      have hplace := eachAfter_suffix weaver method hcaller.symm
      rw [eachAfter_cons_of_kept rfl] at hevent hplace
      rw [eq_append_of_splits hsplit hcaller]
      exact .back hevent effect subroutine hplace

/-- The woven stream reaches nothing else. -/
theorem Receives.alongside (h : weaver.Receives) {ahead : List Instruction} {depth : Nat}
    (hreached : machine.Reaches (eachAfter (weaver.pieceAfter method) [] stream) ahead depth) :
    weaver.Alongside method machine stream ahead depth := by
  -- Control goes to labels and behind jumps, which are old; so only `next` meets what is inserted.
  induction hreached with
  | start => exact .same (List.nil_append _).symm .start
  | caught handler place =>
      rcases exists_split_of_suffix rfl place with ⟨front, back, hsplit, rfl⟩
      rw [← eachAfter_cons_of_kept rfl, List.nil_append]
      exact .same hsplit (.caught handler ⟨front, hsplit.symm⟩)
  | next reached effect goesOn ih =>
      cases ih.coming with
      | kept split hreached =>
          rw [← List.singleton_append, ← List.append_assoc] at split
          exact .same split (hreached.next effect goesOn)
      | push split chosen hreached =>
          rw [(effectOf_correlationAfter weaver method machine _).1] at effect
          cases effect
          exact .between split chosen hreached
      | substitute split chosen hreached =>
          rw [h.effectOf_call machine chosen] at effect
          rw [← List.singleton_append, ← List.append_assoc] at split
          exact .same split (hreached.next effect rfl)
  | jump reached effect target place ih =>
      rcases exists_split_of_suffix rfl place with ⟨front, back, hsplit, rfl⟩
      rcases ih.coming.exists_split (isInserted_of_mem_targets target) with ⟨_, _, _, hreached⟩
      rw [← eachAfter_cons_of_kept rfl, List.nil_append]
      exact .same hsplit (.jump hreached effect target ⟨front, hsplit.symm⟩)
  | back reached effect subroutine place ih =>
      rcases exists_split_of_suffix rfl place with ⟨front, back, hsplit, rfl⟩
      rcases ih.coming.exists_split rfl with ⟨_, _, _, hreached⟩
      have hback := hreached.back effect subroutine ⟨front, hsplit.symm⟩
      rw [← List.singleton_append, ← List.append_assoc] at hsplit
      exact .same hsplit hback

/-- Behind each push that the original can come to, the stack is one slot deeper. -/
theorem Receives.reaches_of_alongside (h : weaver.Receives) {ahead : List Instruction} {depth : Nat}
    (halongside : weaver.Alongside method machine stream ahead depth) :
    machine.Reaches (eachAfter (weaver.pieceAfter method) [] stream) ahead depth := by
  cases halongside with
  | same split reached => exact h.reaches method reached split
  | between split chosen reached =>
      have hevent := h.reaches method reached split
      rw [eachAfter, pieceAfter, chosen] at hevent
      exact reaches_pushed hevent

theorem Alongside.depth_le {ahead : List Instruction} {depth limit : Nat}
    (h : weaver.Alongside method machine stream ahead depth)
    (hlimit : machine.Within stream limit) : depth ≤ limit + 1 := by
  cases h with
  | same _ reached => exact Nat.le_succ_of_le (hlimit _ _ reached)
  | between _ _ reached => exact Nat.succ_le_succ (hlimit _ _ reached)

/-- What the operand stack has to be like where calls are replaced. -/
structure Balanced (weaver : Weaver) (method : MethodContext) (stream : List Instruction)
    (woven : WovenMethod) : Prop where
  /-- The slots of every candidate that was created, next to those of every call it accepts. -/
  argumentSlots : ∀ (candidate : Candidate) (call : MethodDescriptor) (isStatic : Bool),
    candidate.Created → candidate.accepts call isStatic = true →
      candidate.descriptor.argumentSlots = candidate.receiverSlots + call.argumentSlots + 1
  /-- The candidate takes the place of the call if it takes a receiver. -/
  balances_iff : ∀ (candidate : Candidate) (call : MethodDescriptor) (isStatic : Bool),
    candidate.Created → candidate.accepts call isStatic = true →
      (candidate.Balances call isStatic ↔ candidate.TakesReceiver)
  /-- Every place is reached with the depth it had; a push is followed by one slot more. -/
  reaches_iff : ∀ (machine : StackMachine) (ahead : List Instruction) (depth : Nat),
    machine.Reaches woven.stream ahead depth ↔
      weaver.Alongside method machine stream ahead depth
  maxStack : woven.maxStack.toNat = method.maxStack.toNat + 1
  /-- This slot is enough for all calls. -/
  enough : ∀ machine : StackMachine, machine.Within stream method.maxStack.toNat →
    machine.Within woven.stream woven.maxStack.toNat

theorem weave_balanced (h : weaver.Receives) {woven : WovenMethod}
    (hok : (weaver.weave method stream).outcome = .ok woven) :
    weaver.Balanced method stream woven := by
  have hwove := weave_ok hok
  have hdeep := deepenStack_eq_ok_iff.1 hwove.maxStack
  have hiff (machine : StackMachine) (ahead : List Instruction) (depth : Nat) :
      machine.Reaches woven.stream ahead depth ↔
        weaver.Alongside method machine stream ahead depth := by
    rw [hwove.stream]
    exact ⟨h.alongside, h.reaches_of_alongside⟩
  exact
    { argumentSlots := fun _ _ _ => Candidate.argumentSlots_of_accepts
      balances_iff := fun _ _ _ => Candidate.balances_iff_takesReceiver
      reaches_iff := hiff
      maxStack := hdeep
      enough := by
        intro machine hlimit ahead depth hreached
        rw [hdeep]
        exact ((hiff machine ahead depth).1 hreached).depth_le hlimit }

/-! ## A comparison of two arguments -/

/-- Compares its arguments and returns the result. -/
def compareMethod : MethodContext := { loopMethod with maxStack := 2 }

def compareStream : List Instruction :=
  [.simple 0x2B, .simple 0x2C, .invoke (equalsCall none), .simple 0xAC]

/-- The two loads take a slot each, the return gives one back. -/
def compareMachine : StackMachine where
  effect
    | .simple opcode => if opcode = 0xAC then { taken := 1, put := 0 } else { taken := 0, put := 1 }
    | _ => { taken := 0, put := 0 }
  passes
    | .simple opcode => opcode != 0xAC
    | _ => true
  handlers := []

theorem equalsWeaver_receives : equalsWeaver.Receives := by
  have hfunction : ∀ provider ∈ equalsWeaver.registry.providers,
      ∀ function ∈ provider.functions, function = equalsCandidate := by
    intro provider hprovider function hfunction
    simp only [equalsWeaver, Registry.ofProviders, List.mem_singleton] at hprovider
    rw [hprovider] at hfunction
    exact List.mem_singleton.1 hfunction
  have hparse : MethodDescriptor.parse
      "(Ljava/lang/String;Ljava/lang/Object;Ljava/lang/String;)Z" =
        .ok equalsCandidate.descriptor := by cbv
  have hcreated : equalsCandidate.Created := by
    refine ⟨"probe/Substitutes", "equals", "equals", false,
      "(Ljava/lang/String;Ljava/lang/Object;Ljava/lang/String;)Z", .boolean, ?_⟩
    rw [Candidate.create, hparse]
    rfl
  have hreceiver : equalsCandidate.TakesReceiver := by
    unfold Candidate.TakesReceiver
    decide
  exact
    { created := by
        intro provider hprovider function hmem
        rwa [hfunction provider hprovider function hmem]
      takesReceiver := by
        intro provider hprovider function hmem
        rwa [hfunction provider hprovider function hmem] }

private theorem compare_effectOf_call :
    compareMachine.effectOf (.invoke (equalsCall none)) = { taken := 2, put := 1 } := by
  have hparse : MethodDescriptor.parse (equalsCall none).descriptor =
      .ok { parameters := [.object "java/lang/Object"], returns := .value .boolean } := by
    show MethodDescriptor.parse "(Ljava/lang/Object;)Z" = _
    cbv
  simp only [StackMachine.effectOf, hparse]
  rfl

theorem compareMachine_places {rest : List Instruction} {depth : Nat}
    (h : compareMachine.Reaches compareStream rest depth) :
    (rest = compareStream ∧ depth = 0) ∨ (rest = compareStream.drop 1 ∧ depth = 1) ∨
      (rest = compareStream.drop 2 ∧ depth = 2) ∨ (rest = compareStream.drop 3 ∧ depth = 1) := by
  induction h with
  | start => exact .inl ⟨rfl, rfl⟩
  | caught handler _ => cases handler
  | next reached effect goesOn ih =>
      rcases ih with ⟨hplace, rfl⟩ | ⟨hplace, rfl⟩ | ⟨hplace, rfl⟩ | ⟨hplace, rfl⟩ <;> cases hplace
      · exact .inr (.inl ⟨rfl, (Option.some.inj effect).symm⟩)
      · exact .inr (.inr (.inl ⟨rfl, (Option.some.inj effect).symm⟩))
      · rw [compare_effectOf_call] at effect
        exact .inr (.inr (.inr ⟨rfl, (Option.some.inj effect).symm⟩))
      · cases goesOn
  | jump reached effect target place ih =>
      rcases ih with ⟨hplace, -⟩ | ⟨hplace, -⟩ | ⟨hplace, -⟩ | ⟨hplace, -⟩ <;> cases hplace <;>
        cases target
  | back reached effect subroutine place ih =>
      rcases ih with ⟨hplace, -⟩ | ⟨hplace, -⟩ | ⟨hplace, -⟩ | ⟨hplace, -⟩ <;> cases hplace

/-- The comparison needs two slots, with its call replaced three. -/
theorem compare_balanced :
    equalsWeaver.Receives ∧ ∃ woven,
      (equalsWeaver.weave compareMethod compareStream).outcome = .ok woven ∧
        equalsWeaver.Balanced compareMethod compareStream woven ∧
        woven.maxStack = 3 ∧
        compareMachine.Within compareStream 2 ∧ compareMachine.Within woven.stream 3 ∧
        compareMachine.Reaches woven.stream [.invoke equalsCandidate.call, .simple 0xAC] 3 := by
  have hselect : equalsWeaver.select compareMethod (equalsCall none) =
      { outcome := .ok (some equalsCandidate) } := select_equalsCall none
  have hok : ∃ woven, (equalsWeaver.weave compareMethod compareStream).outcome = .ok woven := by
    simp only [weave, weaveFrom, compareStream, hselect]
    exact ⟨_, rfl⟩
  rcases hok with ⟨woven, hwoven⟩
  have hbalanced := weave_balanced equalsWeaver_receives hwoven
  have hwithin : compareMachine.Within compareStream 2 := by
    intro rest depth hreached
    rcases compareMachine_places hreached with ⟨-, rfl⟩ | ⟨-, rfl⟩ | ⟨-, rfl⟩ | ⟨-, rfl⟩ <;> decide
  have hmax : woven.maxStack = 3 := UInt16.toNat_inj.1 hbalanced.maxStack
  have henough := hbalanced.enough compareMachine hwithin
  rw [hmax] at henough
  have hone : compareMachine.Reaches compareStream (compareStream.drop 1) 1 := .next .start rfl rfl
  have htwo : compareMachine.Reaches compareStream (compareStream.drop 2) 2 := .next hone rfl rfl
  have hchosen : equalsWeaver.chosen? compareMethod (.invoke (equalsCall none)) =
      some equalsCandidate := by simp only [chosen?, hselect]
  have hbetween : equalsWeaver.Alongside compareMethod compareMachine compareStream _ _ :=
    .between (show compareStream = compareStream.take 2 ++ _ from rfl) hchosen htwo
  exact ⟨equalsWeaver_receives, woven, hwoven, hbalanced, hmax, hwithin, henough,
    (hbalanced.reaches_iff _ _ _).2 hbetween⟩

end Weaver

end CallProbe
