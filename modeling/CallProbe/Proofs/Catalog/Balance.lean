import CallProbe.Proofs.CallSite.Selection
import CallProbe.Proofs.Descriptor.Grammar
import CallProbe.Proofs.Outcome

/-!
# Candidates and the operand stack

A call of a candidate has to find the operands of the call it stands in for, one slot
above them the correlation id, and to leave the same result. What decides this is how
many slots the parameter takes that stands in the place of the receiver.
-/

namespace CallProbe

open Outcome

/-- Stack slots of what a method returns. -/
def ReturnType.slots : ReturnType → Nat
  | .void => 0
  | .value type => type.slots

/-- What is taken from an operand stack and then put on it, in slots. -/
structure StackEffect where
  taken : Nat
  put : Nat
  deriving DecidableEq, Repr

/-- The depth behind an effect, if the stack is deep enough for it. -/
def StackEffect.on? (effect : StackEffect) (depth : Nat) : Option Nat :=
  if effect.taken ≤ depth then some (depth - effect.taken + effect.put) else none

/-- Taking one slot more, an effect does one slot deeper the same. -/
theorem StackEffect.on?_succ {effect other : StackEffect} (htaken : effect.taken = other.taken + 1)
    (hput : effect.put = other.put) (depth : Nat) :
    effect.on? (depth + 1) = other.on? depth := by
  simp only [on?, htaken, hput, Nat.add_le_add_iff_right, Nat.add_sub_add_right]

/-- What a call does to the stack. -/
def MethodDescriptor.effect (descriptor : MethodDescriptor) (isStatic : Bool) : StackEffect where
  taken := Candidate.receiverCount isStatic + descriptor.argumentSlots
  put := descriptor.returns.slots

/-- Stack slots of some values together. -/
def FieldType.totalSlots (types : List FieldType) : Nat :=
  types.foldr (fun type slots => type.slots + slots) 0

theorem FieldType.totalSlots_cons (type : FieldType) (types : List FieldType) :
    totalSlots (type :: types) = type.slots + totalSlots types := rfl

theorem FieldType.one_le_slots (type : FieldType) : 1 ≤ type.slots := by
  cases type <;> simp [slots]

theorem FieldType.slots_le_two (type : FieldType) : type.slots ≤ 2 := by
  cases type <;> simp [slots]

theorem ReturnType.slots_le_two (returns : ReturnType) : returns.slots ≤ 2 := by
  cases returns with
  | void => decide
  | value type => exact type.slots_le_two

theorem FieldType.totalSlots_append (types others : List FieldType) :
    totalSlots (types ++ others) = totalSlots types + totalSlots others := by
  induction types with
  | nil => exact (Nat.zero_add _).symm
  | cons type types ih =>
      rw [List.cons_append, totalSlots_cons, ih, totalSlots_cons, Nat.add_assoc]

theorem FieldType.length_le_totalSlots (types : List FieldType) :
    types.length ≤ totalSlots types := by
  induction types with
  | nil => exact Nat.le_refl _
  | cons type types ih =>
      have htype := type.one_le_slots
      rw [List.length_cons, totalSlots_cons]
      omega

theorem MethodDescriptor.argumentSlots_eq (descriptor : MethodDescriptor) :
    descriptor.argumentSlots = FieldType.totalSlots descriptor.parameters := rfl

/-- A call makes the stack one slot deeper at most, unless it takes nothing at all. -/
theorem MethodDescriptor.le_of_on?_effect (call : MethodDescriptor) (isStatic : Bool)
    {depth after : Nat} (h : (call.effect isStatic).on? depth = some after) :
    after ≤ depth + 1 ∨ isStatic = true ∧ call.parameters = [] ∧ call.returns.slots = 2 := by
  have hput := call.returns.slots_le_two
  have hlength := FieldType.length_le_totalSlots call.parameters
  rw [← call.argumentSlots_eq] at hlength
  rcases Option.ite_none_right_eq_some.1 h with ⟨henough, hafter⟩
  simp only [effect, Option.some.injEq] at henough hafter
  by_cases htakes : Candidate.receiverCount isStatic + call.argumentSlots = 0
  · have hstatic : isStatic = true := by
      cases isStatic with
      | true => rfl
      | false => simp [Candidate.receiverCount] at htakes
    have hnone : call.parameters = [] := List.length_eq_zero_iff.1 (by omega)
    by_cases hwide : call.returns.slots = 2
    · exact .inr ⟨hstatic, hnone, hwide⟩
    · exact .inl (by omega)
  · exact .inl (by omega)

namespace Candidate

/-- The calling convention of a candidate was checked. -/
def Created (candidate : Candidate) : Prop :=
  ∃ declaring name replaces forStatic descriptor category,
    create declaring name replaces forStatic descriptor category = .ok candidate

/-- Stack slots of the parameters in front of the arguments. -/
def receiverSlots (candidate : Candidate) : Nat :=
  FieldType.totalSlots (candidate.descriptor.parameters.take (receiverCount candidate.forStatic))

/-- What stands in the receiver's place takes one slot, as a reference does. -/
def TakesReceiver (candidate : Candidate) : Prop :=
  candidate.receiverSlots = receiverCount candidate.forStatic

/-- What a call of `candidate` has to be on the stack, next to the call it stands in for. -/
structure Balances (candidate : Candidate) (call : MethodDescriptor) (isStatic : Bool) : Prop where
  returns : candidate.descriptor.returns = call.returns
  argumentSlots :
    candidate.descriptor.argumentSlots = call.argumentSlots + receiverCount isStatic + 1
  /-- One slot deeper than the call it does the same. -/
  net : ∀ depth,
    (candidate.descriptor.effect true).on? (depth + 1) = (call.effect isStatic).on? depth
  /-- This slot is the highest, but for a wide result of a call that takes nothing. -/
  peak : ∀ depth after, (call.effect isStatic).on? depth = some after →
    after ≤ depth + 1 ∨
      isStatic = true ∧ call.parameters = [] ∧ call.returns.slots = 2

variable {candidate : Candidate} {call : MethodDescriptor} {isStatic : Bool}

/-- What was checked. -/
theorem Created.checked (h : candidate.Created) :
    (∃ text, MethodDescriptor.parse text = .ok candidate.descriptor) ∧
      candidate.descriptor.parameters.getLast? = some correlationType := by
  rcases h with ⟨declaring, name, replaces, forStatic, text, category, hcreate⟩
  unfold create at hcreate
  rcases bind_eq_ok_iff.1 hcreate with ⟨descriptor, hparse, hchecks⟩
  dsimp only at hchecks
  split at hchecks
  · cases hchecks
  · split at hchecks
    · cases hchecks
    · rename_i hlast
      cases hchecks
      exact ⟨⟨text, hparse⟩, not_ne_iff.1 hlast⟩

/-- The descriptor of a candidate can be read from the text of a call of it. -/
theorem Created.parse_text (h : candidate.Created) :
    MethodDescriptor.parse candidate.descriptor.text = .ok candidate.descriptor := by
  rcases h.checked with ⟨⟨text, hparse⟩, -⟩
  rw [← (MethodDescriptor.parse_eq_ok_iff.1 hparse).1, hparse]

/-- Between what stands in the receiver's place and the correlation id are the arguments. -/
theorem argumentSlots_of_accepts (hcreated : candidate.Created)
    (haccepts : candidate.accepts call isStatic = true) :
    candidate.descriptor.argumentSlots = candidate.receiverSlots + call.argumentSlots + 1 := by
  rcases accepts_iff.1 haccepts with ⟨hstatic, hfits⟩
  rcases hfits.parameters with ⟨receivers, correlation, hlength, hparameters⟩
  have hlast := hcreated.checked.2
  rw [hparameters, List.getLast?_concat, Option.some.injEq] at hlast
  have hfront : candidate.descriptor.parameters.take (receiverCount candidate.forStatic) =
      receivers := by
    rw [hstatic, ← hlength, hparameters, List.append_assoc, List.take_left]
  rw [receiverSlots, hfront, MethodDescriptor.argumentSlots_eq, MethodDescriptor.argumentSlots_eq,
    hparameters, hlast, FieldType.totalSlots_append, FieldType.totalSlots_append]
  rfl

/-- A candidate balances the calls it accepts if nothing wider than a reference stands in the
receiver's place. -/
theorem balances_iff_takesReceiver (hcreated : candidate.Created)
    (haccepts : candidate.accepts call isStatic = true) :
    candidate.Balances call isStatic ↔ candidate.TakesReceiver := by
  rcases accepts_iff.1 haccepts with ⟨hstatic, hfits⟩
  have hslots := argumentSlots_of_accepts hcreated haccepts
  constructor
  · intro h
    have hbalanced := h.argumentSlots
    rw [TakesReceiver, hstatic]
    omega
  · intro hreceiver
    rw [hreceiver, hstatic] at hslots
    have htaken : (candidate.descriptor.effect true).taken = (call.effect isStatic).taken + 1 := by
      simp only [MethodDescriptor.effect, hslots, receiverCount, if_true]
      omega
    have hput : (candidate.descriptor.effect true).put = (call.effect isStatic).put := by
      rw [MethodDescriptor.effect, MethodDescriptor.effect, hfits.returns]
    exact
      { returns := hfits.returns
        argumentSlots := by omega
        net := StackEffect.on?_succ htaken hput
        peak := fun _ _ => call.le_of_on?_effect isStatic }

/-! ## A receiver of two slots -/

/-- A number of two slots stands in the receiver's place. -/
def wideCandidate : Candidate where
  declaring := "probe/Substitutes"
  name := "equals"
  replaces := "equals"
  forStatic := false
  descriptor :=
    { parameters := [.long, .object "java/lang/Object", .object "java/lang/String"]
      returns := .value .boolean }
  category := .boolean

/-- The candidate is created and accepts a call, though it takes a slot from the stack that the call
does not. -/
theorem wideCandidate_unbalanced :
    create "probe/Substitutes" "equals" "equals" false
        "(JLjava/lang/Object;Ljava/lang/String;)Z" .boolean = .ok wideCandidate ∧
      ∃ call, MethodDescriptor.parse "(Ljava/lang/Object;)Z" = .ok call ∧
        wideCandidate.accepts call false = true ∧
        wideCandidate.descriptor.returns = call.returns ∧
        wideCandidate.descriptor.argumentSlots ≠ call.argumentSlots + receiverCount false + 1 := by
  have hparse : MethodDescriptor.parse "(JLjava/lang/Object;Ljava/lang/String;)Z" =
      .ok wideCandidate.descriptor := by cbv
  have hcall : MethodDescriptor.parse "(Ljava/lang/Object;)Z" =
      .ok { parameters := [.object "java/lang/Object"], returns := .value .boolean } := by cbv
  have hcreate : create "probe/Substitutes" "equals" "equals" false
      "(JLjava/lang/Object;Ljava/lang/String;)Z" .boolean = .ok wideCandidate := by
    rw [create, hparse]
    rfl
  exact ⟨hcreate, _, hcall, by decide, rfl, by decide⟩

end Candidate

end CallProbe
