import CallProbe.Descriptor.Parser
import CallProbe.Instruction.Decode
import CallProbe.Instruction.Layout
import CallProbe.Proofs.Bytes.Pattern
import CallProbe.Proofs.Pool.Symbols

/-!
# The stored form of an instruction

One pattern of bytes for each instruction, shared by what follows on reading and on
writing code. `Instruction.WellFormed` is what an instruction has to satisfy by
itself, `Instruction.InRange` what its operands have to satisfy where it stands.
-/

namespace CallProbe

/-! ## Opcodes -/

/-- The opcode of a form that only one opcode has. -/
def Opcode.Operands.opcode? : Operands → Option UInt8
  | .byteValue => some bipush
  | .shortValue => some 0x11
  | .byteConstant => some ldc
  | .increment => some iinc
  | .tableSwitch => some Opcode.tableSwitch
  | .lookupSwitch => some Opcode.lookupSwitch
  | .invoke kind => some kind.opcode
  | .invokeDynamic => some Opcode.invokeDynamic
  | .newArray => some Opcode.newArray
  | .multiNewArray => some Opcode.multiNewArray
  | .widened => some wide
  | _ => Option.none

namespace Opcode

private theorem forall_of_fin {p : UInt8 → Prop} (h : ∀ n : Fin 256, p ⟨⟨n⟩⟩) (opcode : UInt8) :
    p opcode := h opcode.toFin

theorem operands?_eq_iff {operands : Operands} {expected : UInt8}
    (h : operands.opcode? = some expected) (opcode : UInt8) :
    operands? opcode = some operands ↔ opcode = expected := by
  have hall : ∀ opcode : UInt8, ∀ operands ∈ operands? opcode,
      operands.opcode?.all (· == opcode) = true :=
    forall_of_fin (by decide +kernel)
  constructor
  · intro hop
    have hsame := hall opcode operands hop
    rw [h] at hsame
    exact (eq_of_beq hsame).symm
  · intro hop
    subst hop
    cases operands with
    | invoke kind => cases kind <;> cases h <;> rfl
    | _ => cases h <;> rfl

theorem operands?_eq_wideBranch_iff (opcode : UInt8) :
    operands? opcode = some .wideBranch ↔ isWideBranch opcode = true :=
  forall_of_fin (p := fun opcode =>
    operands? opcode = some .wideBranch ↔ isWideBranch opcode = true) (by decide +kernel) opcode

theorem isWideBranch_of_branch {opcode : UInt8} (h : operands? opcode = some .branch) :
    isWideBranch opcode = false := by
  by_contra hwide
  have hop := (operands?_eq_wideBranch_iff opcode).2 (by simpa using hwide)
  rw [h] at hop
  cases hop

end Opcode

/-! ## Distances -/

/-- The distance from `offset` to `target` has 16 bits. -/
def ReachesShort (offset : Nat) (target : Label) : Prop :=
  -32768 ≤ (target : Int) - offset ∧ (target : Int) - offset ≤ 32767

/-- The distance from `offset` to `target` has 32 bits. -/
def ReachesLong (offset : Nat) (target : Label) : Prop :=
  -2147483648 ≤ (target : Int) - offset ∧ (target : Int) - offset ≤ 2147483647

def distance16 (offset : Nat) (target : Label) : Bytes :=
  bytes16 (Int16.ofInt ((target : Int) - offset)).toUInt16

def distance32 (offset : Nat) (target : Label) : Bytes :=
  bytes32 (Int32.ofInt ((target : Int) - offset)).toUInt32

@[simp] theorem length_distance16 (offset : Nat) (target : Label) :
    (distance16 offset target).length = 2 := length_bytes16 _

@[simp] theorem length_distance32 (offset : Nat) (target : Label) :
    (distance32 offset target).length = 4 := length_bytes32 _

/-- The count byte of an interface call: a slot for the receiver and those of its arguments. -/
def Call.interfaceCount (call : Call) : Nat :=
  match MethodDescriptor.parse call.descriptor with
  | .ok descriptor => descriptor.argumentSlots + 1
  | .error _ => 0

theorem Call.interfaceCount_eq {call : Call} {descriptor : MethodDescriptor}
    (h : MethodDescriptor.parse call.descriptor = .ok descriptor) :
    call.interfaceCount = descriptor.argumentSlots + 1 := by
  unfold Call.interfaceCount
  rw [h]

theorem Call.parse_of_interfaceCount_pos {call : Call} (h : 0 < call.interfaceCount) :
    ∃ descriptor, MethodDescriptor.parse call.descriptor = .ok descriptor := by
  unfold Call.interfaceCount at h
  cases hp : MethodDescriptor.parse call.descriptor with
  | ok descriptor => exact ⟨descriptor, rfl⟩
  | error fault => simp [hp] at h

namespace Instruction

open BytePattern

/-- The bytes of an instruction at `offset`. Nothing is stored for labels and lines, and a string
has no form of its own until it is in a pool. -/
def pattern (offset : Nat) : Instruction → BytePattern
  | label _ | line _ _ | loadString _ => []
  | simple opcode => fixed [opcode]
  | push opcode value =>
    fixed (opcode :: if opcode = Opcode.bipush then [value.toInt8.toUInt8]
      else bytes16 value.toUInt16)
  | newArray type => fixed [Opcode.newArray, type]
  | slot opcode index wide =>
    fixed (if wide then Opcode.wide :: opcode :: bytes16 index else [opcode, index.toUInt8])
  | increment index delta wide =>
    fixed (if wide then Opcode.wide :: Opcode.iinc :: bytes16 index ++ bytes16 delta.toUInt16
      else [Opcode.iinc, index.toUInt8, delta.toInt8.toUInt8])
  | jump opcode target =>
    fixed (opcode :: if Opcode.isWideBranch opcode then distance32 offset target
      else distance16 offset target)
  | tableSwitch default low high targets =>
    fixed [Opcode.tableSwitch] ++ free (Cursor.padding 4 (offset + 1))
      ++ fixed (distance32 offset default ++ bytes32 low.toUInt32 ++ bytes32 high.toUInt32
        ++ targets.flatMap (distance32 offset))
  | lookupSwitch default pairs =>
    fixed [Opcode.lookupSwitch] ++ free (Cursor.padding 4 (offset + 1))
      ++ fixed (distance32 offset default ++ bytes32 (UInt32.ofNat pairs.length)
        ++ pairs.flatMap fun pair => bytes32 pair.1.toUInt32 ++ distance32 offset pair.2)
  | constant opcode index =>
    fixed (opcode :: if opcode = Opcode.ldc then [index.toUInt8] else bytes16 index)
  | reference opcode index => fixed (opcode :: bytes16 index)
  | invoke call =>
    fixed (call.kind.opcode :: bytes16 (call.poolIndex.getD 0))
      ++ if call.kind = .interface then fixed [UInt8.ofNat call.interfaceCount] ++ free 1 else []
  | invokeDynamic index => fixed (Opcode.invokeDynamic :: bytes16 index) ++ free 2
  | multiNewArray index dimensions =>
    fixed (Opcode.multiNewArray :: bytes16 index ++ [dimensions])

theorem length_pattern {instruction : Instruction} (h : ∀ text, instruction ≠ loadString text)
    (offset : Nat) (index : UInt16) :
    (instruction.pattern offset).length = instruction.size offset index := by
  cases instruction with
  | loadString text => exact absurd rfl (h text)
  | push opcode _ =>
      by_cases hop : opcode = Opcode.bipush <;> simp [pattern, size, hop]
  | slot _ _ wide => cases wide <;> simp [pattern, size]
  | increment _ _ wide => cases wide <;> simp [pattern, size]
  | jump opcode _ => cases hop : Opcode.isWideBranch opcode <;> simp [pattern, size, hop]
  | tableSwitch _ _ _ targets =>
      simp [pattern, size, List.length_flatMap]
      omega
  | lookupSwitch _ pairs =>
      simp [pattern, size, List.length_flatMap]
      omega
  | constant opcode _ => by_cases hop : opcode = Opcode.ldc <;> simp [pattern, size, hop]
  | invoke call => by_cases hkind : call.kind = .interface <;> simp [pattern, size, hkind]
  | _ => simp [pattern, size]

theorem size_pos {instruction : Instruction} (h : instruction.isPseudo = false) (position : Nat)
    (index : UInt16) : 0 < instruction.size position index := by
  cases instruction with
  | label _ => cases h
  | line _ _ => cases h
  | _ =>
      simp only [size]
      grind

/-- The opcode is one that is read as this kind of instruction, a table switch has a target for
each number between its bounds, and a call with a pool index is the one the pool holds there. -/
def WellFormed (pool : Pool) : Instruction → Prop
  | simple opcode => Opcode.operands? opcode = some .none
  | push opcode _ =>
    Opcode.operands? opcode = some .byteValue ∨ Opcode.operands? opcode = some .shortValue
  | slot opcode _ _ => Opcode.operands? opcode = some .slot
  | jump opcode _ =>
    Opcode.operands? opcode = some .branch ∨ Opcode.operands? opcode = some .wideBranch
  | tableSwitch _ low high targets => (targets.length : Int) = high.toInt - low.toInt + 1
  | constant opcode _ =>
    Opcode.operands? opcode = some .byteConstant ∨ Opcode.operands? opcode = some .shortConstant
  | reference opcode _ => Opcode.operands? opcode = some .reference
  | invoke call => ∀ index, call.poolIndex = some index → pool.HoldsMethod index call.member
  | _ => True

/-- The operands of an instruction at `offset` of a code array of `size` bytes have the width they
are stored with, branches stay inside the code array, and nothing is left symbolic. -/
def InRange (size offset : Nat) : Instruction → Prop
  | label _ | line _ _ | loadString _ => False
  | push opcode value => opcode = Opcode.bipush → -128 ≤ value.toInt ∧ value.toInt ≤ 127
  | slot _ index wide => wide = false → index.toNat ≤ 255
  | increment index delta wide =>
    wide = false → index.toNat ≤ 255 ∧ -128 ≤ delta.toInt ∧ delta.toInt ≤ 127
  | jump opcode target =>
    target < size ∧
      if Opcode.isWideBranch opcode then ReachesLong offset target else ReachesShort offset target
  | tableSwitch default _ _ targets =>
    (∀ target ∈ default :: targets, target < size ∧ ReachesLong offset target) ∧
      targets.length ≤ maxSwitchEntries
  | lookupSwitch default pairs =>
    (∀ target ∈ default :: pairs.map (·.2), target < size ∧ ReachesLong offset target) ∧
      pairs.length ≤ maxSwitchEntries
  | constant opcode index => opcode = Opcode.ldc → index.toNat ≤ 255
  | invoke call =>
    call.poolIndex.isSome ∧
      (call.kind = .interface → 0 < call.interfaceCount ∧ call.interfaceCount ≤ 255)
  | _ => True

theorem InRange.target_lt {size offset : Nat} {instruction : Instruction}
    (h : instruction.InRange size offset) : ∀ target ∈ instruction.targets, target < size := by
  cases instruction with
  | jump opcode label =>
      intro target htarget
      rw [List.mem_singleton.1 htarget]
      exact h.1
  | tableSwitch _ _ _ _ => exact fun target htarget => (h.1 target htarget).1
  | lookupSwitch _ _ => exact fun target htarget => (h.1 target htarget).1
  | _ => simp [targets]

/-- An instruction that reading the code at `offset` can yield. -/
structure Readable (pool : Pool) (size offset : Nat) (instruction : Instruction) : Prop where
  wellFormed : instruction.WellFormed pool
  inRange : instruction.InRange size offset

end Instruction

end CallProbe
