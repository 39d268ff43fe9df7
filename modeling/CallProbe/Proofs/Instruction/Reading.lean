import CallProbe.Proofs.Instruction.Form

/-!
# Reading instructions

An instruction is read exactly where bytes fit its pattern and it is readable there.
The code array is then cut into such pieces from its start to its end.
-/

namespace CallProbe

open Cursor Reader

/-! ## Narrow operands -/

theorem toUInt16_toUInt8_of_le {value : UInt16} (h : value.toNat ≤ 255) :
    value.toUInt8.toUInt16 = value := by
  apply UInt16.toNat_inj.1
  simp
  omega

theorem toUInt16_le (value : UInt8) : value.toUInt16.toNat ≤ 255 := by
  have := value.toNat_lt
  simp
  omega

theorem toInt16_bounds (value : Int8) :
    -128 ≤ value.toInt16.toInt ∧ value.toInt16.toInt ≤ 127 := by
  have hlow := value.le_toInt
  have hhigh := value.toInt_lt
  rw [Int8.toInt_toInt16]
  omega

theorem toInt16_toInt8_of_bounds {value : Int16} (h : -128 ≤ value.toInt ∧ value.toInt ≤ 127) :
    value.toInt8.toInt16 = value := by
  apply Int16.toInt_inj.1
  rw [Int8.toInt_toInt16, Int16.toInt_toInt8]
  exact Int.bmod_eq_of_le (by omega) (by omega)

/-- A number that is read from a byte is one that a byte can hold. -/
theorem exists_toUInt16_iff (p : UInt16 → UInt8 → Prop) :
    (∃ byte : UInt8, p byte.toUInt16 byte) ↔
      ∃ index : UInt16, index.toNat ≤ 255 ∧ p index index.toUInt8 := by
  constructor
  · intro h
    rcases h with ⟨byte, hp⟩
    exact ⟨byte.toUInt16, toUInt16_le byte, by simpa using hp⟩
  · intro h
    rcases h with ⟨index, hindex, hp⟩
    exact ⟨index.toUInt8, by rwa [toUInt16_toUInt8_of_le hindex]⟩

theorem exists_toInt16_iff (p : Int16 → Int8 → Prop) :
    (∃ byte : Int8, p byte.toInt16 byte) ↔
      ∃ value : Int16, (-128 ≤ value.toInt ∧ value.toInt ≤ 127) ∧ p value value.toInt8 := by
  constructor
  · intro h
    rcases h with ⟨byte, hp⟩
    exact ⟨byte.toInt16, toInt16_bounds byte, by simpa using hp⟩
  · intro h
    rcases h with ⟨value, hvalue, hp⟩
    exact ⟨value.toInt8, by rwa [toInt16_toInt8_of_bounds hvalue]⟩

/-! ## Targets -/

variable {pool : Pool} {size offset : Nat} {c d : Cursor}

theorem branchTarget_eq_ok_iff {distance : Int32} {target : Nat} :
    Instruction.branchTarget size offset distance = .ok target ↔
      target < size ∧ distance.toInt = (target : Int) - offset := by
  unfold Instruction.branchTarget
  dsimp only
  split
  · rename_i h
    rw [Except.ok.injEq]
    show ((offset : Int) + distance.toInt).toNat = target ↔ _
    omega
  · simp only [reduceCtorEq, false_iff]
    omega

theorem longTarget_eq_ok_iff {target : Nat} :
    Instruction.targetReader size offset c = .ok (target, d) ↔
      (target < size ∧ ReachesLong offset target) ∧ c.Passes (distance32 offset target) d := by
  unfold Instruction.targetReader distance32 ReachesLong
  simp only [bind_eq_ok_iff, i32_eq_ok_iff, lift_eq_ok_iff, branchTarget_eq_ok_iff]
  constructor
  · intro h
    rcases h with ⟨distance, m, hpass, ⟨hsize, hdistance⟩, rfl⟩
    have hlow := distance.le_toInt
    have hhigh := distance.toInt_lt
    refine ⟨⟨hsize, by omega, by omega⟩, ?_⟩
    rwa [← hdistance, Int32.ofInt_toInt]
  · intro h
    rcases h with ⟨⟨hsize, hlow, hhigh⟩, hpass⟩
    exact ⟨_, d, hpass, ⟨hsize, Int32.toInt_ofInt_of_le (by omega) (by omega)⟩, rfl⟩

theorem shortTarget_eq_ok_iff {target : Nat} :
    (∃ distance m, c.Passes (bytes16 (Int16.toUInt16 distance)) m ∧
        Instruction.branchTarget size offset distance.toInt32 = .ok target ∧ d = m) ↔
      (target < size ∧ ReachesShort offset target) ∧ c.Passes (distance16 offset target) d := by
  unfold distance16 ReachesShort
  simp only [branchTarget_eq_ok_iff, Int16.toInt_toInt32]
  constructor
  · intro h
    rcases h with ⟨distance, m, hpass, ⟨hsize, hdistance⟩, rfl⟩
    have hlow := distance.le_toInt
    have hhigh := distance.toInt_lt
    refine ⟨⟨hsize, by omega, by omega⟩, ?_⟩
    rwa [← hdistance, Int16.ofInt_toInt]
  · intro h
    rcases h with ⟨⟨hsize, hlow, hhigh⟩, hpass⟩
    exact ⟨_, d, hpass, ⟨hsize, Int16.toInt_ofInt_of_le (by omega) (by omega)⟩, rfl⟩

theorem longTarget_invertsOn : (Instruction.targetReader size offset).InvertsOn
    (fun target => target < size ∧ ReachesLong offset target) (distance32 offset) :=
  fun _ _ _ => longTarget_eq_ok_iff

theorem switchCount_eq_ok_iff {count : Int} {entries : Nat} :
    Instruction.switchCount offset count = .ok entries ↔
      (entries : Int) = count ∧ entries ≤ maxSwitchEntries := by
  unfold Instruction.switchCount
  split
  · rw [Except.ok.injEq]
    omega
  · simp only [reduceCtorEq, false_iff]
    omega

/-- The key of a pair and the place it leads to. -/
theorem switchPair_invertsOn :
    Reader.InvertsOn (do return (← Reader.i32, ← Instruction.targetReader size offset))
      (fun pair : Int32 × Label => pair.2 < size ∧ ReachesLong offset pair.2)
      (fun pair => bytes32 pair.1.toUInt32 ++ distance32 offset pair.2) := by
  intro c pair d
  simp only [bind_eq_ok_iff, i32_eq_ok_iff, longTarget_eq_ok_iff, pure_eq_ok_iff,
    passes_append_iff]
  constructor
  · intro h
    rcases h with ⟨key, m, hkey, target, m', ⟨hvalid, htarget⟩, rfl, rfl⟩
    exact ⟨hvalid, m, hkey, htarget⟩
  · intro h
    rcases h with ⟨hvalid, m, hkey, htarget⟩
    exact ⟨pair.1, m, hkey, pair.2, d, ⟨hvalid, htarget⟩, rfl, rfl⟩

/-! ## Calls -/

/-- The call of a member through its pool index. -/
def MemberRef.call (member : MemberRef) (kind : InvokeKind) (index : UInt16) : Call where
  kind
  owner := member.owner
  name := member.name
  descriptor := member.descriptor
  isInterface := member.isInterface
  poolIndex := some index

namespace Instruction

/-- The two bytes behind the index of an interface call: its count, and one that nobody reads. -/
private theorem count_eq_ok_iff {α : Type} {descriptor : String} {x y : α} :
    (do
        let declared ← Reader.u8
        let _ ← Reader.u8
        let expected := (← MethodDescriptor.parse descriptor).argumentSlots + 1
        if declared.toNat ≠ expected then
          throw (.malformed (.interfaceCount offset declared expected))
        return x : Reader α) c = .ok (y, d) ↔
      y = x ∧ ∃ parsed, MethodDescriptor.parse descriptor = .ok parsed ∧
        parsed.argumentSlots + 1 ≤ 255 ∧
        c.Matches (.fixed [UInt8.ofNat (parsed.argumentSlots + 1)] ++ .free 1) d := by
  simp only [bind_eq_ok_iff, u8_eq_ok_iff, lift_eq_ok_iff, matches_append_iff, matches_fixed_iff,
    matches_free_iff]
  constructor
  · intro h
    rcases h with ⟨declared, m, hdeclared, reserved, m', hreserved, parsed, _, ⟨hparsed, rfl⟩, h⟩
    split at h
    · simp [map_eq_ok_iff] at h
    · rename_i hcount
      have hlt := declared.toNat_lt
      rw [pure_eq_ok_iff] at h
      refine ⟨h.1, parsed, hparsed, by omega, m, ?_, [reserved], rfl, h.2 ▸ hreserved⟩
      rwa [← Decidable.of_not_not hcount, UInt8.ofNat_toNat]
  · intro h
    rcases h with ⟨rfl, parsed, hparsed, hle, m, hdeclared, bytes, hlen, hreserved⟩
    obtain ⟨reserved, rfl⟩ := List.length_eq_one_iff.1 hlen
    refine ⟨_, m, hdeclared, reserved, d, hreserved, parsed, d, ⟨hparsed, rfl⟩, ?_⟩
    have hback : (UInt8.ofNat (parsed.argumentSlots + 1)).toNat = parsed.argumentSlots + 1 :=
      UInt8.toNat_ofNat_of_lt' (Nat.lt_succ_of_le hle)
    rw [if_neg (not_not_intro hback)]
    exact pure_eq_ok_iff.2 ⟨rfl, rfl⟩

theorem callReader_eq_ok_iff {kind : InvokeKind} {instruction : Instruction} :
    callReader pool offset kind c = .ok (instruction, d) ↔
      ∃ index member m, c.Passes (bytes16 index) m ∧ pool.HoldsMethod index member ∧
        instruction = invoke (member.call kind index) ∧
        if kind = .interface then
          ∃ parsed, MethodDescriptor.parse member.descriptor = .ok parsed ∧
            parsed.argumentSlots + 1 ≤ 255 ∧
            m.Matches (.fixed [UInt8.ofNat (parsed.argumentSlots + 1)] ++ .free 1) d
        else d = m := by
  unfold callReader
  simp only [bind_eq_ok_iff, u16_eq_ok_iff, lift_eq_ok_iff]
  constructor
  · intro h
    rcases h with ⟨index, m, hindex, constant, _, ⟨hget, rfl⟩, h⟩
    split at h
    · simp [bind_eq_ok_iff] at h
    · rename_i hfield
      simp only [bind_eq_ok_iff, lift_eq_ok_iff] at h
      rcases h with ⟨member, _, ⟨hmember, rfl⟩, h⟩
      refine ⟨index, member, _, hindex, Pool.holdsMethod_iff.2 ⟨hmember, ?_⟩, ?_⟩
      · intro owner signature hfield'
        rw [Pool.get_eq_ok_iff, hfield'] at hget
        cases hget
        exact hfield owner signature rfl
      · by_cases hkind : kind = .interface
        · rw [if_pos hkind] at h ⊢
          exact count_eq_ok_iff.1 h
        · rw [if_neg hkind, pure_eq_ok_iff] at h
          rw [if_neg hkind]
          exact h
  · intro h
    rcases h with ⟨index, member, m, hindex, hholds, rfl, h⟩
    obtain ⟨hmember, hfield⟩ := Pool.holdsMethod_iff.1 hholds
    rcases hholds with ⟨owner, signature, hget, -, -⟩
    refine ⟨index, m, hindex, _, m, ⟨Pool.get_eq_ok_iff.2 hget, rfl⟩, ?_⟩
    have htail : (do
        let member ← pool.memberRef index
        if kind = .interface then
          let declared ← Reader.u8
          let _ ← Reader.u8
          let expected := (← MethodDescriptor.parse member.descriptor).argumentSlots + 1
          if declared.toNat ≠ expected then
            throw (.malformed (.interfaceCount offset declared expected))
        return invoke (member.call kind index) : Reader Instruction) m
          = .ok (invoke (member.call kind index), d) := by
      refine bind_eq_ok_iff.2 ⟨member, m, lift_eq_ok_iff.2 ⟨hmember, rfl⟩, ?_⟩
      by_cases hkind : kind = .interface
      · rw [if_pos hkind] at h ⊢
        exact count_eq_ok_iff.2 ⟨rfl, h⟩
      · rw [if_neg hkind] at h ⊢
        exact pure_eq_ok_iff.2 ⟨rfl, h⟩
    cases member.isInterface <;> exact htail

/-! ## Operands -/

variable {opcode : UInt8} {instruction : Instruction}

theorem byteValue_eq_ok_iff :
    operandReader pool size offset opcode .byteValue c = .ok (instruction, d) ↔
      ∃ value : Int16, (-128 ≤ value.toInt ∧ value.toInt ≤ 127) ∧
        instruction = push opcode value ∧ c.Passes [value.toInt8.toUInt8] d :=
  (i8_inverts.return_eq_ok_iff _).trans
    (exists_toInt16_iff fun value byte =>
      instruction = push opcode value ∧ c.Passes [byte.toUInt8] d)

theorem byteConstant_eq_ok_iff :
    operandReader pool size offset opcode .byteConstant c = .ok (instruction, d) ↔
      ∃ index : UInt16, index.toNat ≤ 255 ∧
        instruction = constant opcode index ∧ c.Passes [index.toUInt8] d :=
  (u8_inverts.return_eq_ok_iff _).trans
    (exists_toUInt16_iff fun index byte => instruction = constant opcode index ∧ c.Passes [byte] d)

theorem slot_eq_ok_iff :
    operandReader pool size offset opcode .slot c = .ok (instruction, d) ↔
      ∃ index : UInt16, index.toNat ≤ 255 ∧
        instruction = slot opcode index false ∧ c.Passes [index.toUInt8] d :=
  (u8_inverts.return_eq_ok_iff _).trans
    (exists_toUInt16_iff fun index byte =>
      instruction = slot opcode index false ∧ c.Passes [byte] d)

theorem increment_eq_ok_iff :
    operandReader pool size offset opcode .increment c = .ok (instruction, d) ↔
      ∃ (index : UInt16) (delta : Int16),
        (index.toNat ≤ 255 ∧ -128 ≤ delta.toInt ∧ delta.toInt ≤ 127) ∧
          instruction = increment index delta false ∧
          c.Passes [index.toUInt8, delta.toInt8.toUInt8] d := by
  simp only [operandReader, bind_eq_ok_iff, u8_eq_ok_iff, i8_eq_ok_iff, pure_eq_ok_iff]
  constructor
  · intro h
    rcases h with ⟨index, m, hindex, delta, m', hdelta, rfl, rfl⟩
    refine ⟨_, _, ⟨toUInt16_le index, toInt16_bounds delta⟩, rfl, ?_⟩
    exact passes_cons_iff.2 ⟨m, by simpa using hindex, by simpa using hdelta⟩
  · intro h
    rcases h with ⟨index, delta, ⟨hindex, hdelta⟩, rfl, hpass⟩
    obtain ⟨m, hfront, hback⟩ := passes_cons_iff.1 hpass
    refine ⟨_, m, hfront, _, d, hback, ?_, rfl⟩
    rw [toUInt16_toUInt8_of_le hindex, toInt16_toInt8_of_bounds hdelta]

theorem branch_eq_ok_iff :
    operandReader pool size offset opcode .branch c = .ok (instruction, d) ↔
      ∃ target, (target < size ∧ ReachesShort offset target) ∧
        instruction = jump opcode target ∧ c.Passes (distance16 offset target) d := by
  simp only [operandReader, bind_eq_ok_iff, i16_eq_ok_iff, lift_eq_ok_iff, pure_eq_ok_iff]
  constructor
  · intro h
    rcases h with ⟨distance, m, hpass, target, _, ⟨htarget, rfl⟩, rfl, rfl⟩
    obtain ⟨hvalid, hpass⟩ := shortTarget_eq_ok_iff.1 ⟨distance, _, hpass, htarget, rfl⟩
    exact ⟨target, hvalid, rfl, hpass⟩
  · intro h
    rcases h with ⟨target, hvalid, rfl, hpass⟩
    obtain ⟨distance, m, hdistance, htarget, rfl⟩ := shortTarget_eq_ok_iff.2 ⟨hvalid, hpass⟩
    exact ⟨distance, d, hdistance, target, d, ⟨htarget, rfl⟩, rfl, rfl⟩

theorem wideBranch_eq_ok_iff :
    operandReader pool size offset opcode .wideBranch c = .ok (instruction, d) ↔
      ∃ target, (target < size ∧ ReachesLong offset target) ∧
        instruction = jump opcode target ∧ c.Passes (distance32 offset target) d := by
  simp only [operandReader, bind_eq_ok_iff, longTarget_eq_ok_iff, pure_eq_ok_iff]
  constructor
  · intro h
    rcases h with ⟨target, m, ⟨hvalid, hpass⟩, rfl, rfl⟩
    exact ⟨target, hvalid, rfl, hpass⟩
  · intro h
    rcases h with ⟨target, hvalid, rfl, hpass⟩
    exact ⟨target, d, ⟨hvalid, hpass⟩, rfl, rfl⟩

theorem tableSwitch_eq_ok_iff :
    operandReader pool size offset opcode .tableSwitch c = .ok (instruction, d) ↔
      ∃ default low high targets,
        ((targets.length : Int) = high.toInt - low.toInt + 1 ∧
          (∀ target ∈ default :: targets, target < size ∧ ReachesLong offset target) ∧
          targets.length ≤ maxSwitchEntries) ∧
        instruction = tableSwitch default low high targets ∧
        c.Matches (.free (padding 4 c.pos) ++ .fixed (distance32 offset default ++
          bytes32 low.toUInt32 ++ bytes32 high.toUInt32 ++ targets.flatMap (distance32 offset)))
          d := by
  simp only [operandReader, bind_eq_ok_iff, align_eq_ok_iff, longTarget_eq_ok_iff, i32_eq_ok_iff,
    lift_eq_ok_iff, switchCount_eq_ok_iff, longTarget_invertsOn.many_eq_ok_iff, pure_eq_ok_iff]
  constructor
  · intro h
    rcases h with ⟨_, m₁, hpad, default, m₂, ⟨hdefault, hpass⟩, low, m₃, hlow, high, m₄, hhigh,
      count, _, ⟨⟨hcount, hmax⟩, rfl⟩, targets, m₅, ⟨hlen, htargets, hlast⟩, rfl, rfl⟩
    subst hlen
    refine ⟨default, low, high, targets,
      ⟨hcount, List.forall_mem_cons.2 ⟨hdefault, htargets⟩, hmax⟩, rfl,
      matches_append_iff.2 ⟨m₁, matches_free_iff.2 hpad, matches_fixed_iff.2 ?_⟩⟩
    exact ((hpass.trans hlow).trans hhigh).trans hlast
  · intro h
    rcases h with ⟨default, low, high, targets, ⟨hcount, hall, hmax⟩, rfl, hm⟩
    obtain ⟨hdefault, htargets⟩ := List.forall_mem_cons.1 hall
    obtain ⟨m₁, hpad, hrest⟩ := matches_append_iff.1 hm
    have hpass := matches_fixed_iff.1 hrest
    simp only [List.append_assoc, passes_append_iff] at hpass
    rcases hpass with ⟨m₂, hdistance, m₃, hlow, m₄, hhigh, hlast⟩
    exact ⟨(), m₁, matches_free_iff.1 hpad, default, m₂, ⟨hdefault, hdistance⟩, low, m₃, hlow,
      high, m₄, hhigh, targets.length, m₄, ⟨⟨hcount, hmax⟩, rfl⟩, targets, d,
      ⟨rfl, htargets, hlast⟩, rfl, rfl⟩

theorem lookupSwitch_eq_ok_iff :
    operandReader pool size offset opcode .lookupSwitch c = .ok (instruction, d) ↔
      ∃ default pairs,
        ((∀ target ∈ default :: pairs.map (·.2), target < size ∧ ReachesLong offset target) ∧
          pairs.length ≤ maxSwitchEntries) ∧
        instruction = lookupSwitch default pairs ∧
        c.Matches (.free (padding 4 c.pos) ++ .fixed (distance32 offset default ++
          bytes32 (UInt32.ofNat pairs.length) ++
          pairs.flatMap fun pair => bytes32 pair.1.toUInt32 ++ distance32 offset pair.2)) d := by
  simp only [operandReader, bind_eq_ok_iff, align_eq_ok_iff, longTarget_eq_ok_iff, i32_eq_ok_iff,
    lift_eq_ok_iff, switchCount_eq_ok_iff, switchPair_invertsOn.many_eq_ok_iff, pure_eq_ok_iff]
  constructor
  · intro h
    rcases h with ⟨_, m₁, hpad, default, m₂, ⟨hdefault, hpass⟩, stored, m₃, hstored, count, _,
      ⟨⟨hcount, hmax⟩, rfl⟩, pairs, m₄, ⟨hlen, hpairs, hlast⟩, rfl, rfl⟩
    subst hlen
    have hback : UInt32.ofNat pairs.length = stored.toUInt32 := by
      rw [← Int32.ofInt_toInt stored, ← hcount, Int32.ofInt_eq_ofNat, Int32.toUInt32_ofNat']
    have hall : ∀ target ∈ default :: pairs.map (·.2),
        target < size ∧ ReachesLong offset target := by
      refine List.forall_mem_cons.2 ⟨hdefault, ?_⟩
      intro target htarget
      obtain ⟨pair, hpair, rfl⟩ := List.mem_map.1 htarget
      exact hpairs pair hpair
    refine ⟨default, pairs, ⟨hall, hmax⟩, rfl,
      matches_append_iff.2 ⟨m₁, matches_free_iff.2 hpad, matches_fixed_iff.2 ?_⟩⟩
    rw [hback]
    exact (hpass.trans hstored).trans hlast
  · intro h
    rcases h with ⟨default, pairs, ⟨hall, hmax⟩, rfl, hm⟩
    obtain ⟨hdefault, htargets⟩ := List.forall_mem_cons.1 hall
    have hpairs : ∀ pair ∈ pairs, pair.2 < size ∧ ReachesLong offset pair.2 :=
      fun pair hpair => htargets pair.2 (List.mem_map_of_mem hpair)
    have hstored : (Int32.ofNat pairs.length).toInt = pairs.length := by
      rw [← Int32.ofInt_eq_ofNat]
      unfold maxSwitchEntries at hmax
      exact Int32.toInt_ofInt_of_le (by omega) (by omega)
    obtain ⟨m₁, hpad, hrest⟩ := matches_append_iff.1 hm
    have hpass := matches_fixed_iff.1 hrest
    simp only [List.append_assoc, passes_append_iff] at hpass
    rcases hpass with ⟨m₂, hdistance, m₃, hcount, hlast⟩
    rw [← Int32.toUInt32_ofNat'] at hcount
    exact ⟨(), m₁, matches_free_iff.1 hpad, default, m₂, ⟨hdefault, hdistance⟩, _, m₃, hcount,
      pairs.length, m₃, ⟨⟨hstored.symm, hmax⟩, rfl⟩, pairs, d, ⟨rfl, hpairs, hlast⟩, rfl, rfl⟩

theorem invoke_eq_ok_iff {kind : InvokeKind} :
    operandReader pool size offset opcode (.invoke kind) c = .ok (instruction, d) ↔
      ∃ call : Call, call.kind = kind ∧
        ((invoke call).WellFormed pool ∧ (invoke call).InRange size offset) ∧
        instruction = invoke call ∧
        c.Matches (BytePattern.fixed (bytes16 (call.poolIndex.getD 0)) ++
          if kind = .interface then
            BytePattern.fixed [UInt8.ofNat call.interfaceCount] ++ .free 1
          else []) d := by
  constructor
  · intro h
    obtain ⟨index, member, m, hindex, hholds, rfl, htail⟩ := callReader_eq_ok_iff.1 h
    have hwell : (invoke (member.call kind index)).WellFormed pool := by
      intro other hother
      cases hother
      exact hholds
    by_cases hkind : kind = .interface
    · rw [if_pos hkind] at htail
      rcases htail with ⟨parsed, hparsed, hle, htail⟩
      have hcount : (member.call kind index).interfaceCount = parsed.argumentSlots + 1 :=
        Call.interfaceCount_eq hparsed
      refine ⟨member.call kind index, rfl, ⟨hwell, rfl, fun _ => ⟨by omega, by omega⟩⟩, rfl, ?_⟩
      rw [if_pos hkind, hcount]
      exact matches_append_iff.2 ⟨m, matches_fixed_iff.2 hindex, htail⟩
    · rw [if_neg hkind] at htail
      refine ⟨member.call kind index, rfl, ⟨hwell, rfl, fun hinterface => absurd hinterface hkind⟩,
        rfl, ?_⟩
      rw [if_neg hkind, List.append_nil, htail]
      exact matches_fixed_iff.2 hindex
  · intro h
    rcases h with ⟨call, rfl, ⟨hwell, hsome, hcount⟩, rfl, hm⟩
    obtain ⟨index, hindex⟩ := Option.isSome_iff_exists.1 hsome
    have hcall : call = call.member.call call.kind index := by
      cases call
      cases hindex
      rfl
    obtain ⟨m, hpass, htail⟩ := matches_append_iff.1 hm
    rw [hindex] at hpass
    refine callReader_eq_ok_iff.2 ⟨index, call.member, m, matches_fixed_iff.1 hpass,
      hwell index hindex, congrArg _ hcall, ?_⟩
    by_cases hkind : call.kind = .interface
    · rw [if_pos hkind] at htail ⊢
      obtain ⟨hpositive, hle⟩ := hcount hkind
      obtain ⟨parsed, hparsed⟩ := Call.parse_of_interfaceCount_pos hpositive
      rw [Call.interfaceCount_eq hparsed] at htail hle
      exact ⟨parsed, hparsed, hle, htail⟩
    · rw [if_neg hkind] at htail ⊢
      exact matches_nil_iff.1 htail

/-- Nobody reads the last two bytes. -/
theorem invokeDynamic_eq_ok_iff :
    operandReader pool size offset opcode .invokeDynamic c = .ok (instruction, d) ↔
      ∃ index, instruction = invokeDynamic index ∧
        c.Matches (.fixed (bytes16 index) ++ .free 2) d := by
  simp only [operandReader, bind_eq_ok_iff, u16_eq_ok_iff, pure_eq_ok_iff]
  constructor
  · intro h
    rcases h with ⟨index, m, hindex, reserved, m', hreserved, rfl, rfl⟩
    refine ⟨index, rfl, matches_append_iff.2 ⟨m, matches_fixed_iff.2 hindex, ?_⟩⟩
    exact matches_free_iff.2 ⟨_, length_bytes16 reserved, hreserved⟩
  · intro h
    rcases h with ⟨index, rfl, hm⟩
    obtain ⟨m, hindex, hreserved⟩ := matches_append_iff.1 hm
    obtain ⟨bytes, hlen, hpass⟩ := matches_free_iff.1 hreserved
    have hback : bytes16 (UInt16.ofNat (BigEndian.toNat bytes)) = bytes := by
      have hlt := BigEndian.toNat_lt bytes
      rw [hlen] at hlt
      rw [bytes16, UInt16.toNat_ofNat_of_lt' hlt, ← hlen, BigEndian.ofNat_toNat]
    exact ⟨index, m, matches_fixed_iff.1 hindex, _, d, hback.symm ▸ hpass, rfl, rfl⟩

theorem multiNewArray_eq_ok_iff :
    operandReader pool size offset opcode .multiNewArray c = .ok (instruction, d) ↔
      ∃ index dimensions, instruction = multiNewArray index dimensions ∧
        c.Passes (bytes16 index ++ [dimensions]) d := by
  simp only [operandReader, bind_eq_ok_iff, u16_eq_ok_iff, u8_eq_ok_iff, pure_eq_ok_iff]
  constructor
  · intro h
    rcases h with ⟨index, m, hindex, dimensions, m', hdimensions, rfl, rfl⟩
    exact ⟨index, dimensions, rfl, hindex.trans hdimensions⟩
  · intro h
    rcases h with ⟨index, dimensions, rfl, hpass⟩
    obtain ⟨m, hindex, hdimensions⟩ := passes_append_iff.1 hpass
    exact ⟨index, m, hindex, dimensions, d, hdimensions, rfl, rfl⟩

theorem widened_eq_ok_iff :
    operandReader pool size offset opcode .widened c = .ok (instruction, d) ↔
      (∃ modified index, Opcode.operands? modified = some .slot ∧
        instruction = slot modified index true ∧ c.Passes (modified :: bytes16 index) d) ∨
      ∃ index delta, instruction = increment index delta true ∧
        c.Passes (Opcode.iinc :: bytes16 index ++ bytes16 delta.toUInt16) d := by
  simp only [operandReader, widenedReader, bind_eq_ok_iff, u8_eq_ok_iff]
  constructor
  · intro h
    rcases h with ⟨modified, m, hmodified, h⟩
    cases hkind : Opcode.operands? modified with
    | none => simp [hkind] at h
    | some kind =>
        cases kind with
        | slot =>
            simp only [hkind, bind_eq_ok_iff, u16_eq_ok_iff, pure_eq_ok_iff] at h
            rcases h with ⟨index, m', hindex, rfl, rfl⟩
            exact .inl ⟨modified, index, hkind, rfl, hmodified.trans hindex⟩
        | increment =>
            simp only [hkind, bind_eq_ok_iff, u16_eq_ok_iff, i16_eq_ok_iff, pure_eq_ok_iff] at h
            rcases h with ⟨index, m', hindex, delta, m'', hdelta, rfl, rfl⟩
            obtain rfl : modified = Opcode.iinc := (Opcode.operands?_eq_iff rfl modified).1 hkind
            exact .inr ⟨index, delta, rfl, (hmodified.trans hindex).trans hdelta⟩
        | _ => simp [hkind] at h
  · intro h
    rcases h with ⟨modified, index, hkind, rfl, hpass⟩ | ⟨index, delta, rfl, hpass⟩
    · obtain ⟨m, hmodified, hindex⟩ := passes_cons_iff.1 hpass
      refine ⟨modified, m, hmodified, ?_⟩
      simp only [hkind, bind_eq_ok_iff, u16_eq_ok_iff, pure_eq_ok_iff]
      exact ⟨index, d, hindex, rfl, rfl⟩
    · have hkind : Opcode.operands? Opcode.iinc = some .increment := rfl
      obtain ⟨m, hmodified, hrest⟩ := passes_cons_iff.1 hpass
      obtain ⟨m', hindex, hdelta⟩ := passes_append_iff.1 hrest
      refine ⟨Opcode.iinc, m, hmodified, ?_⟩
      simp only [hkind, bind_eq_ok_iff, u16_eq_ok_iff, i16_eq_ok_iff, pure_eq_ok_iff]
      exact ⟨index, m', hindex, delta, d, hdelta, rfl, rfl⟩

/-! ## Single instructions -/

theorem operandReader_readable {operands : Opcode.Operands}
    (hop : Opcode.operands? opcode = some operands) (hpos : c.pos = offset + 1)
    (h : operandReader pool size offset opcode operands c = .ok (instruction, d)) :
    instruction.Readable pool size offset ∧
      ∃ rest, instruction.pattern offset = .fixed [opcode] ++ rest ∧ c.Matches rest d := by
  have hfixed {expected : UInt8} (hexpected : operands.opcode? = some expected) :
      opcode = expected := (Opcode.operands?_eq_iff hexpected opcode).1 hop
  cases operands with
  | none =>
      obtain ⟨rfl, rfl⟩ := pure_eq_ok_iff.1 h
      exact ⟨⟨hop, trivial⟩, [], by simp [pattern], by simp⟩
  | byteValue =>
      obtain rfl := hfixed rfl
      obtain ⟨value, hvalue, rfl, hpass⟩ := byteValue_eq_ok_iff.1 h
      exact ⟨⟨.inl hop, fun _ => hvalue⟩, _, rfl, matches_fixed_iff.2 hpass⟩
  | shortValue =>
      obtain rfl := hfixed rfl
      obtain ⟨value, rfl, hpass⟩ := (i16_inverts.return_eq_ok_iff _).1 h
      exact ⟨⟨.inr hop, fun hpush => by cases hpush⟩, _, rfl, matches_fixed_iff.2 hpass⟩
  | byteConstant =>
      obtain rfl := hfixed rfl
      obtain ⟨index, hindex, rfl, hpass⟩ := byteConstant_eq_ok_iff.1 h
      exact ⟨⟨.inl hop, fun _ => hindex⟩, _, rfl, matches_fixed_iff.2 hpass⟩
  | shortConstant =>
      obtain ⟨index, rfl, hpass⟩ := (u16_inverts.return_eq_ok_iff _).1 h
      have hldc : opcode ≠ Opcode.ldc := by
        rintro rfl
        cases hop
      refine ⟨⟨.inr hop, fun heq => absurd heq hldc⟩, .fixed (bytes16 index), ?_,
        matches_fixed_iff.2 hpass⟩
      simp [pattern, hldc, BytePattern.fixed]
  | slot =>
      obtain ⟨index, hindex, rfl, hpass⟩ := slot_eq_ok_iff.1 h
      exact ⟨⟨hop, fun _ => hindex⟩, _, rfl, matches_fixed_iff.2 hpass⟩
  | increment =>
      obtain rfl := hfixed rfl
      obtain ⟨index, delta, hnarrow, rfl, hpass⟩ := increment_eq_ok_iff.1 h
      exact ⟨⟨trivial, fun _ => hnarrow⟩, _, rfl, matches_fixed_iff.2 hpass⟩
  | branch =>
      obtain ⟨target, ⟨hsize, hreach⟩, rfl, hpass⟩ := branch_eq_ok_iff.1 h
      have hshort := Opcode.isWideBranch_of_branch hop
      refine ⟨⟨.inl hop, hsize, by rwa [hshort]⟩, .fixed (distance16 offset target), ?_,
        matches_fixed_iff.2 hpass⟩
      simp [pattern, hshort, BytePattern.fixed]
  | wideBranch =>
      obtain ⟨target, ⟨hsize, hreach⟩, rfl, hpass⟩ := wideBranch_eq_ok_iff.1 h
      have hwide := (Opcode.operands?_eq_wideBranch_iff opcode).1 hop
      refine ⟨⟨.inr hop, hsize, by rwa [hwide]⟩, .fixed (distance32 offset target), ?_,
        matches_fixed_iff.2 hpass⟩
      simp [pattern, hwide, BytePattern.fixed]
  | tableSwitch =>
      obtain rfl := hfixed rfl
      obtain ⟨default, low, high, targets, ⟨hcount, hvalid⟩, rfl, hm⟩ := tableSwitch_eq_ok_iff.1 h
      exact ⟨⟨hcount, hvalid⟩, _, List.append_assoc .., hpos ▸ hm⟩
  | lookupSwitch =>
      obtain rfl := hfixed rfl
      obtain ⟨default, pairs, hvalid, rfl, hm⟩ := lookupSwitch_eq_ok_iff.1 h
      exact ⟨⟨trivial, hvalid⟩, _, List.append_assoc .., hpos ▸ hm⟩
  | reference =>
      obtain ⟨index, rfl, hpass⟩ := (u16_inverts.return_eq_ok_iff _).1 h
      exact ⟨⟨hop, trivial⟩, _, rfl, matches_fixed_iff.2 hpass⟩
  | invoke kind =>
      obtain rfl := hfixed rfl
      obtain ⟨call, rfl, ⟨hwell, hrange⟩, rfl, hm⟩ := invoke_eq_ok_iff.1 h
      exact ⟨⟨hwell, hrange⟩, _, rfl, hm⟩
  | invokeDynamic =>
      obtain rfl := hfixed rfl
      obtain ⟨index, rfl, hm⟩ := invokeDynamic_eq_ok_iff.1 h
      exact ⟨⟨trivial, trivial⟩, _, rfl, hm⟩
  | newArray =>
      obtain rfl := hfixed rfl
      obtain ⟨type, rfl, hpass⟩ := (u8_inverts.return_eq_ok_iff _).1 h
      exact ⟨⟨trivial, trivial⟩, _, rfl, matches_fixed_iff.2 hpass⟩
  | multiNewArray =>
      obtain rfl := hfixed rfl
      obtain ⟨index, dimensions, rfl, hpass⟩ := multiNewArray_eq_ok_iff.1 h
      exact ⟨⟨trivial, trivial⟩, _, rfl, matches_fixed_iff.2 hpass⟩
  | widened =>
      obtain rfl := hfixed rfl
      rcases widened_eq_ok_iff.1 h with
        ⟨modified, index, hkind, rfl, hpass⟩ | ⟨index, delta, rfl, hpass⟩
      · exact ⟨⟨hkind, fun hnarrow => by cases hnarrow⟩, _, rfl, matches_fixed_iff.2 hpass⟩
      · exact ⟨⟨trivial, fun hnarrow => by cases hnarrow⟩, _, rfl, matches_fixed_iff.2 hpass⟩

theorem reader_eq_ok_iff_operands :
    reader pool size c = .ok (instruction, d) ↔ ∃ opcode operands m, c.Passes [opcode] m ∧
      Opcode.operands? opcode = some operands ∧
      operandReader pool size c.pos opcode operands m = .ok (instruction, d) := by
  unfold reader
  simp only [bind_eq_ok_iff, get_eq_ok_iff, u8_eq_ok_iff]
  constructor
  · intro h
    rcases h with ⟨_, _, ⟨rfl, rfl⟩, opcode, m, hpass, h⟩
    cases hop : Opcode.operands? opcode with
    | none => simp [hop] at h
    | some operands =>
        simp only [hop] at h
        exact ⟨opcode, operands, m, hpass, hop, h⟩
  · intro h
    rcases h with ⟨opcode, operands, m, hpass, hop, h⟩
    refine ⟨c, c, ⟨rfl, rfl⟩, opcode, m, hpass, ?_⟩
    simpa only [hop] using h

theorem matches_fixed_cons_iff {rest : Bytes} {pattern : BytePattern} :
    c.Matches (.fixed (opcode :: rest) ++ pattern) d ↔
      ∃ m, c.Passes [opcode] m ∧ m.Matches (.fixed rest ++ pattern) d := by
  rw [← List.singleton_append, BytePattern.fixed, List.map_append, List.append_assoc]
  rw [matches_append_iff]
  exact exists_congr fun m => and_congr_left fun _ => matches_fixed_iff

private theorem reader_of_pattern {rest : Bytes} {tail : BytePattern}
    {operands : Opcode.Operands} (hop : Opcode.operands? opcode = some operands)
    (hm : c.Matches (.fixed (opcode :: rest) ++ tail) d)
    (h : ∀ m : Cursor, m.pos = c.pos + 1 → m.Matches (.fixed rest ++ tail) d →
      operandReader pool size c.pos opcode operands m = .ok (instruction, d)) :
    reader pool size c = .ok (instruction, d) := by
  obtain ⟨m, hpass, hrest⟩ := matches_fixed_cons_iff.1 hm
  exact reader_eq_ok_iff_operands.2 ⟨opcode, operands, m, hpass, hop, h m hpass.pos hrest⟩

private theorem reader_of_operands {rest : Bytes} {operands : Opcode.Operands}
    (hop : Opcode.operands? opcode = some operands) (hm : c.Passes (opcode :: rest) d)
    (h : ∀ m : Cursor, m.Passes rest d →
      operandReader pool size c.pos opcode operands m = .ok (instruction, d)) :
    reader pool size c = .ok (instruction, d) := by
  obtain ⟨m, hpass, hrest⟩ := passes_cons_iff.1 hm
  exact reader_eq_ok_iff_operands.2 ⟨opcode, operands, m, hpass, hop, h m hrest⟩

theorem reader_of_readable (h : instruction.Readable pool size c.pos)
    (hm : c.Matches (instruction.pattern c.pos) d) :
    reader pool size c = .ok (instruction, d) := by
  rcases h with ⟨hwell, hrange⟩
  cases instruction with
  | label _ => exact hrange.elim
  | line _ _ => exact hrange.elim
  | loadString _ => exact hrange.elim
  | simple opcode =>
      apply reader_of_operands hwell (matches_fixed_iff.1 hm)
      intro m hrest
      exact pure_eq_ok_iff.2 ⟨rfl, passes_nil_iff.1 hrest⟩
  | push opcode value =>
      have hpass := matches_fixed_iff.1 hm
      rcases hwell with hbyte | hshort
      · have hop : opcode = Opcode.bipush := (Opcode.operands?_eq_iff rfl opcode).1 hbyte
        rw [if_pos hop] at hpass
        apply reader_of_operands hbyte hpass
        intro m hrest
        exact byteValue_eq_ok_iff.2 ⟨value, hrange hop, rfl, hrest⟩
      · have hop : opcode ≠ Opcode.bipush := by
          rintro rfl
          cases hshort
        rw [if_neg hop] at hpass
        apply reader_of_operands hshort hpass
        intro m hrest
        exact (i16_inverts.return_eq_ok_iff _).2 ⟨value, rfl, hrest⟩
  | newArray type =>
      apply reader_of_operands (show Opcode.operands? _ = some .newArray from rfl)
        (matches_fixed_iff.1 hm)
      intro m hrest
      exact (u8_inverts.return_eq_ok_iff _).2 ⟨type, rfl, hrest⟩
  | slot opcode index wide =>
      have hpass := matches_fixed_iff.1 hm
      cases wide with
      | false =>
          apply reader_of_operands hwell hpass
          intro m hrest
          exact slot_eq_ok_iff.2 ⟨index, hrange rfl, rfl, hrest⟩
      | true =>
          apply reader_of_operands (show Opcode.operands? _ = some .widened from rfl) hpass
          intro m hrest
          exact widened_eq_ok_iff.2 (.inl ⟨opcode, index, hwell, rfl, hrest⟩)
  | increment index delta wide =>
      have hpass := matches_fixed_iff.1 hm
      cases wide with
      | false =>
          apply reader_of_operands (show Opcode.operands? _ = some .increment from rfl) hpass
          intro m hrest
          exact increment_eq_ok_iff.2 ⟨index, delta, hrange rfl, rfl, hrest⟩
      | true =>
          apply reader_of_operands (show Opcode.operands? _ = some .widened from rfl) hpass
          intro m hrest
          exact widened_eq_ok_iff.2 (.inr ⟨index, delta, rfl, hrest⟩)
  | jump opcode target =>
      rcases hrange with ⟨hsize, hreach⟩
      have hpass := matches_fixed_iff.1 hm
      rcases hwell with hbranch | hbranch
      · rw [if_neg (by simp [Opcode.isWideBranch_of_branch hbranch])] at hpass hreach
        apply reader_of_operands hbranch hpass
        intro m hrest
        exact branch_eq_ok_iff.2 ⟨target, ⟨hsize, hreach⟩, rfl, hrest⟩
      · rw [if_pos ((Opcode.operands?_eq_wideBranch_iff opcode).1 hbranch)] at hpass hreach
        apply reader_of_operands hbranch hpass
        intro m hrest
        exact wideBranch_eq_ok_iff.2 ⟨target, ⟨hsize, hreach⟩, rfl, hrest⟩
  | tableSwitch default low high targets =>
      rw [pattern, List.append_assoc] at hm
      apply reader_of_pattern (show Opcode.operands? _ = some .tableSwitch from rfl) hm
      intro m hpos hrest
      rw [← hpos] at hrest
      exact tableSwitch_eq_ok_iff.2 ⟨default, low, high, targets, ⟨hwell, hrange⟩, rfl, hrest⟩
  | lookupSwitch default pairs =>
      rw [pattern, List.append_assoc] at hm
      apply reader_of_pattern (show Opcode.operands? _ = some .lookupSwitch from rfl) hm
      intro m hpos hrest
      rw [← hpos] at hrest
      exact lookupSwitch_eq_ok_iff.2 ⟨default, pairs, hrange, rfl, hrest⟩
  | constant opcode index =>
      have hpass := matches_fixed_iff.1 hm
      rcases hwell with hbyte | hshort
      · have hop : opcode = Opcode.ldc := (Opcode.operands?_eq_iff rfl opcode).1 hbyte
        rw [if_pos hop] at hpass
        apply reader_of_operands hbyte hpass
        intro m hrest
        exact byteConstant_eq_ok_iff.2 ⟨index, hrange hop, rfl, hrest⟩
      · have hop : opcode ≠ Opcode.ldc := by
          rintro rfl
          cases hshort
        rw [if_neg hop] at hpass
        apply reader_of_operands hshort hpass
        intro m hrest
        exact (u16_inverts.return_eq_ok_iff _).2 ⟨index, rfl, hrest⟩
  | reference opcode index =>
      apply reader_of_operands hwell (matches_fixed_iff.1 hm)
      intro m hrest
      exact (u16_inverts.return_eq_ok_iff _).2 ⟨index, rfl, hrest⟩
  | invoke call =>
      have hop : Opcode.operands? call.kind.opcode = some (.invoke call.kind) :=
        (Opcode.operands?_eq_iff rfl _).2 rfl
      apply reader_of_pattern hop hm
      intro m _ hrest
      exact invoke_eq_ok_iff.2 ⟨call, rfl, ⟨hwell, hrange⟩, rfl, hrest⟩
  | invokeDynamic index =>
      apply reader_of_pattern (show Opcode.operands? _ = some .invokeDynamic from rfl) hm
      intro m _ hrest
      exact invokeDynamic_eq_ok_iff.2 ⟨index, rfl, hrest⟩
  | multiNewArray index dimensions =>
      apply reader_of_operands (show Opcode.operands? _ = some .multiNewArray from rfl)
        (matches_fixed_iff.1 hm)
      intro m hrest
      exact multiNewArray_eq_ok_iff.2 ⟨index, dimensions, rfl, hrest⟩

/-- The two halves of reading: what is read is readable and stood there, and the other way
round. -/
theorem reader_eq_ok_iff :
    reader pool size c = .ok (instruction, d) ↔
      instruction.Readable pool size c.pos ∧ c.Matches (instruction.pattern c.pos) d := by
  constructor
  · intro h
    obtain ⟨opcode, operands, m, hpass, hop, h⟩ := reader_eq_ok_iff_operands.1 h
    obtain ⟨hreadable, rest, hpattern, hrest⟩ := operandReader_readable hop hpass.pos h
    refine ⟨hreadable, ?_⟩
    rw [hpattern]
    exact matches_append_iff.2 ⟨m, matches_fixed_iff.2 hpass, hrest⟩
  · intro h
    exact reader_of_readable h.1 h.2

end Instruction

end CallProbe
