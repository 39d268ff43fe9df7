import CallProbe.Proofs.Instruction.Tiling
import CallProbe.Proofs.Instruction.Writing

/-!
# Reading what was written

A placement whose targets lie inside the code array is read back as the instruction
it was resolved to. The real instructions of a layout therefore tile the code array
that is written for it, each at its own position.
-/

namespace CallProbe

open Outcome

variable {labels : Std.TreeMap Nat Nat} {pool left : Pool} {size position : Nat} {index : UInt16}

namespace Instruction

/-- The labels that an event is about. -/
def mentions : Instruction → List Label
  | label name => [name]
  | line _ start => [start]
  | instruction => instruction.targets

/-- The first instruction, once encoded, is read back as the second: labels at their new places,
strings and new calls through indices of the pool that was left. -/
def ReadsAs (pool : Pool) (place : Label → Option Nat) : Instruction → Instruction → Prop
  | label name, read => ∃ moved, place name = some moved ∧ read = label moved
  | line number start, read => ∃ moved, place start = some moved ∧ read = line number moved
  | jump opcode target, read => ∃ moved, place target = some moved ∧ read = jump opcode moved
  | tableSwitch default low high targets, read => ∃ moved others,
    place default = some moved ∧
      List.Forall₂ (fun target other => place target = some other) targets others ∧
      read = tableSwitch moved low high others
  | lookupSwitch default pairs, read => ∃ moved others,
    place default = some moved ∧
      List.Forall₂ (fun pair other => other.1 = pair.1 ∧ place pair.2 = some other.2) pairs others ∧
      read = lookupSwitch moved others
  | loadString text, read => ∃ index, pool.HoldsString index text ∧
    read = constant (if index.toNat ≤ 255 then Opcode.ldc else Opcode.ldcWide) index
  | invoke call, read => ∃ index, pool.HoldsMethod index call.member ∧
    (∀ stored, call.poolIndex = some stored → index = stored) ∧
    read = invoke { call with poolIndex := some index }
  | instruction, read => read = instruction

theorem mentions_eq_targets {instruction : Instruction} (h : instruction.isPseudo = false) :
    instruction.mentions = instruction.targets := by
  cases instruction with
  | label _ => cases h
  | line _ _ => cases h
  | _ => rfl

theorem WellFormed.extends {instruction : Instruction} (h : instruction.WellFormed pool)
    (hext : left.Extends pool) : instruction.WellFormed left := by
  cases instruction with
  | invoke call => exact fun index hindex => hext.holdsMethod (h index hindex)
  | _ => exact h

theorem Readable.extends {instruction : Instruction} {offset : Nat}
    (h : instruction.Readable pool size offset) (hext : left.Extends pool) :
    instruction.Readable left size offset :=
  ⟨h.wellFormed.extends hext, h.inRange⟩

/-- A code array is read in the same way against a pool that has grown. -/
theorem Tiles.extends {offset : Nat} {instructions : List (Nat × Instruction)} {code : Bytes}
    (h : Tiles pool size offset instructions code) (hext : left.Extends pool) :
    Tiles left size offset instructions code := by
  induction h with
  | nil => exact .nil
  | cons readable fits _ ih => exact .cons (readable.extends hext) fits ih

/-- The index of a call leads to its method, be it the stored or a new one. -/
theorem holdsMethod_of_indexed {call : Call} (hwell : (invoke call).WellFormed pool)
    (h : (invoke call).Indexed pool index) : pool.HoldsMethod index call.member := by
  simp only [Indexed] at h
  cases hstored : call.poolIndex with
  | some stored =>
      simp only [hstored] at h
      rw [h]
      exact hwell stored hstored
  | none => simpa only [hstored] using h

theorem readsAs_resolved {instruction : Instruction}
    (hplaced : ∀ label ∈ instruction.mentions, labels.contains label = true)
    (hwell : instruction.WellFormed pool) (hindexed : instruction.Indexed pool index) :
    instruction.ReadsAs pool (labels[·]?) (instruction.resolved (newPlace labels) index) := by
  have hplace {label : Label} (hlabel : label ∈ instruction.mentions) :
      labels[label]? = some (newPlace labels label) :=
    place_eq_some_iff.2 ⟨hplaced label hlabel, rfl⟩
  cases instruction with
  | label name => exact ⟨_, hplace (List.mem_singleton_self _), rfl⟩
  | line number start => exact ⟨_, hplace (List.mem_singleton_self _), rfl⟩
  | jump opcode target => exact ⟨_, hplace (List.mem_singleton_self _), rfl⟩
  | tableSwitch default low high targets =>
      refine ⟨_, _, hplace List.mem_cons_self, ?_, rfl⟩
      rw [List.forall₂_map_right_iff, List.forall₂_same]
      exact fun target htarget => hplace (List.mem_cons_of_mem _ htarget)
  | lookupSwitch default pairs =>
      refine ⟨_, _, hplace List.mem_cons_self, ?_, rfl⟩
      rw [List.forall₂_map_right_iff, List.forall₂_same]
      exact fun pair hpair => ⟨rfl, hplace (List.mem_cons_of_mem _ (List.mem_map_of_mem hpair))⟩
  | loadString text => exact ⟨index, hindexed, rfl⟩
  | invoke call =>
      refine ⟨index, holdsMethod_of_indexed hwell hindexed, ?_, rfl⟩
      intro stored hstored
      simpa only [Indexed, hstored] using hindexed
  | _ => rfl

/-! ## Single instructions -/

theorem WellFormed.resolved {instruction : Instruction} (h : instruction.WellFormed pool)
    (hindexed : instruction.Indexed pool index) (move : Label → Nat) :
    (instruction.resolved move index).WellFormed pool := by
  cases instruction with
  | tableSwitch _ _ _ targets => simpa [WellFormed, Instruction.resolved] using h
  | loadString text =>
      by_cases hshort : index.toNat ≤ 255
      · exact .inl (by rw [if_pos hshort]; rfl)
      · exact .inr (by rw [if_neg hshort]; rfl)
  | invoke call =>
      intro other hother
      cases hother
      have hholds : pool.HoldsMethod index call.member := holdsMethod_of_indexed h hindexed
      exact hholds
  | _ => exact h

theorem targets_resolved (move : Label → Nat) (index : UInt16) (instruction : Instruction) :
    (instruction.resolved move index).targets = instruction.targets.map move := by
  cases instruction with
  | lookupSwitch default pairs => simp [resolved, targets]
  | _ => rfl

theorem resolved_of_pseudo {instruction : Instruction} (h : instruction.isPseudo = true)
    (move : Label → Nat) (index other : UInt16) :
    instruction.resolved move index = instruction.resolved move other := by
  cases instruction with
  | label _ => rfl
  | line _ _ => rfl
  | _ => cases h

/-- Distances inside a code array have 32 bits, and a switch that fits has few enough entries. -/
theorem Encodable.inRange {instruction : Instruction} (h : instruction.Encodable labels position)
    (hreal : instruction.isPseudo = false)
    (hinside : ∀ target ∈ instruction.targets, newPlace labels target < size)
    (hroom : position + instruction.size position index ≤ size) (hsize : size ≤ maxCodeLength) :
    (instruction.resolved (newPlace labels) index).InRange size position := by
  rcases h with ⟨-, hnarrow⟩
  have hlong : ∀ place ∈ (instruction.resolved (newPlace labels) index).targets,
      place < size ∧ ReachesLong position place := by
    intro place hplace
    rw [targets_resolved] at hplace
    obtain ⟨target, htarget, rfl⟩ := List.mem_map.1 hplace
    have hlt := hinside target htarget
    unfold maxCodeLength at hsize
    exact ⟨hlt, by omega, by omega⟩
  cases instruction with
  | label _ => cases hreal
  | line _ _ => cases hreal
  | push opcode value => exact hnarrow
  | slot opcode index wide => exact hnarrow
  | increment index delta wide => exact hnarrow
  | constant opcode index => exact hnarrow
  | jump opcode target =>
      obtain ⟨hlt, hreach⟩ := hlong _ (List.mem_singleton_self _)
      refine ⟨hlt, ?_⟩
      cases hwide : Opcode.isWideBranch opcode with
      | true => exact hreach
      | false => exact hnarrow hwide
  | tableSwitch default low high targets =>
      simp only [Instruction.size] at hroom
      unfold maxCodeLength at hsize
      refine ⟨hlong, ?_⟩
      rw [List.length_map]
      unfold maxSwitchEntries
      omega
  | lookupSwitch default pairs =>
      simp only [Instruction.size] at hroom
      unfold maxCodeLength at hsize
      refine ⟨hlong, ?_⟩
      rw [List.length_map]
      unfold maxSwitchEntries
      omega
  | loadString text =>
      intro hop
      by_contra hlong
      rw [if_neg hlong] at hop
      cases hop
  | invoke call => exact ⟨rfl, hnarrow⟩
  | _ => trivial

/-! ## Whole layouts -/

end Instruction

namespace Placement

variable {placement : Placement}

theorem size_of_pseudo (h : placement.instruction.isPseudo = true) : placement.size = 0 := by
  unfold size
  cases hi : placement.instruction <;> simp [hi, Instruction.isPseudo] at h <;> rfl

theorem bytes_of_pseudo (h : placement.instruction.isPseudo = true) :
    placement.bytes labels = [] := by
  apply List.eq_nil_of_length_eq_zero
  rw [length_bytes, size_of_pseudo h]

end Placement

namespace Layout

variable {placements : List Placement} {start stop : Nat}

theorem Consecutive.le (h : Consecutive start placements stop) : start ≤ stop := by
  induction h with
  | nil => exact Nat.le_refl _
  | cons _ ih => omega

theorem Consecutive.mem (h : Consecutive start placements stop) {placement : Placement}
    (hmem : placement ∈ placements) :
    start ≤ placement.position ∧ placement.position + placement.size ≤ stop := by
  induction h with
  | nil => cases hmem
  | cons tail ih =>
      have hle := tail.le
      rcases List.mem_cons.1 hmem with rfl | hmem
      · omega
      · have hinner := ih hmem
        omega

theorem consecutive_append_iff {front back : List Placement} :
    Consecutive start (front ++ back) stop ↔
      ∃ middle, Consecutive start front middle ∧ Consecutive middle back stop := by
  induction front generalizing start with
  | nil =>
      constructor
      · intro h
        exact ⟨start, .nil, h⟩
      · intro h
        rcases h with ⟨_, hfront, hback⟩
        cases hfront
        exact hback
  | cons placement rest ih =>
      constructor
      · intro h
        cases h with
        | cons tail =>
            obtain ⟨middle, hrest, hback⟩ := ih.1 tail
            exact ⟨middle, .cons hrest, hback⟩
      · intro h
        rcases h with ⟨middle, hfront, hback⟩
        cases hfront with
        | cons tail => exact .cons (ih.2 ⟨middle, tail, hback⟩)

theorem Consecutive.length_bytes (h : Consecutive start placements stop)
    (labels : Std.TreeMap Nat Nat) :
    start + (placements.flatMap (Placement.bytes labels)).length = stop := by
  induction h with
  | nil => rfl
  | cons _ ih =>
      rw [List.flatMap_cons, List.length_append, Placement.length_bytes]
      omega

/-- The first real instruction of a run of placements stands at its start. -/
theorem Consecutive.exists_at_start (h : Consecutive start placements stop)
    (hreal : ∃ placement ∈ placements, placement.instruction.isPseudo = false) :
    ∃ placement ∈ placements,
      placement.instruction.isPseudo = false ∧ placement.position = start := by
  induction h with
  | nil => simp at hreal
  | @cons _ placement rest tail ih =>
      cases hpseudo : placement.instruction.isPseudo with
      | false => exact ⟨placement, List.mem_cons_self, hpseudo, rfl⟩
      | true =>
          rcases hreal with ⟨other, hother, hotherReal⟩
          have hrest : other ∈ rest := by
            rcases List.mem_cons.1 hother with rfl | hrest
            · rw [hpseudo] at hotherReal
              cases hotherReal
            · exact hrest
          obtain ⟨first, hfirst, hfirstReal, hposition⟩ := ih ⟨other, hrest, hotherReal⟩
          rw [Placement.size_of_pseudo hpseudo] at hposition
          exact ⟨first, List.mem_cons_of_mem _ hfirst, hfirstReal, hposition⟩

/-- The instructions that take bytes, at their positions and as they are read back. -/
def reals (labels : Std.TreeMap Nat Nat) (placements : List Placement) :
    List (Nat × Instruction) :=
  (placements.filter (!·.instruction.isPseudo)).map fun placement =>
    (placement.position, placement.resolved labels)

theorem reals_append (front back : List Placement) :
    reals labels (front ++ back) = reals labels front ++ reals labels back := by
  simp [reals]

theorem reals_of_pseudo (h : ∀ placement ∈ placements, placement.instruction.isPseudo = true) :
    reals labels placements = [] := by
  have hnone : placements.filter (!·.instruction.isPseudo) = [] := by
    rw [List.filter_eq_nil_iff]
    intro placement hplacement
    simp [h placement hplacement]
  rw [reals, hnone, List.map_nil]

theorem reals_of_real (h : ∀ placement ∈ placements, placement.instruction.isPseudo = false) :
    reals labels placements = placements.map fun placement =>
      (placement.position, placement.resolved labels) := by
  have hall : placements.filter (!·.instruction.isPseudo) = placements := by
    rw [List.filter_eq_self]
    intro placement hplacement
    simp [h placement hplacement]
  rw [reals, hall]

theorem mem_reals_iff {entry : Nat × Instruction} :
    entry ∈ reals labels placements ↔ ∃ placement ∈ placements,
      placement.instruction.isPseudo = false ∧
        (placement.position, placement.resolved labels) = entry := by
  simp [reals, and_assoc]

theorem Consecutive.tiles (h : Consecutive start placements stop)
    (hreadable : ∀ placement ∈ placements, placement.instruction.isPseudo = false →
      (placement.resolved labels).Readable left size placement.position) :
    Instruction.Tiles left size start (reals labels placements)
      (placements.flatMap (Placement.bytes labels)) := by
  induction h with
  | nil => exact .nil
  | @cons _ placement rest tail ih =>
      obtain ⟨hhead, hrest⟩ := List.forall_mem_cons.1 hreadable
      have htiles := ih hrest
      rw [List.flatMap_cons]
      cases hpseudo : placement.instruction.isPseudo with
      | true =>
          rw [Placement.size_of_pseudo hpseudo] at htiles
          simpa [reals, hpseudo, Placement.bytes_of_pseudo hpseudo] using htiles
      | false =>
          have hreals : reals labels (placement :: rest) =
              (placement.position, placement.resolved labels) :: reals labels rest := by
            simp [reals, hpseudo]
          rw [← placement.length_bytes labels] at htiles
          rw [hreals]
          exact .cons (hhead hpseudo) (BytePattern.zeroed_fits _) htiles

/-- The code array written for a layout whose branches stay inside it. -/
theorem Lays.tiles {layout : Layout} (h : Lays {} pool placements layout left) (hs : pool.Sound)
    (hwell : ∀ placement ∈ placements, placement.instruction.WellFormed pool)
    (hencodable : ∀ placement ∈ placements, placement.Encodable layout.labels)
    (hinside : ∀ placement ∈ placements, ∀ target ∈ placement.instruction.targets,
      newPlace layout.labels target < layout.length) :
    Instruction.Tiles left layout.length 0 (reals layout.labels placements)
      (placements.flatMap (Placement.bytes layout.labels)) := by
  obtain ⟨-, hext, hindexed⟩ := h.pool hs
  apply h.consecutive.tiles
  intro placement hmem hreal
  have hfits := (h.consecutive.mem hmem).2
  have hsize := h.length_le (Nat.zero_le _)
  exact ⟨((hwell placement hmem).extends hext).resolved (hindexed placement hmem) _,
    (hencodable placement hmem).inRange hreal (hinside placement hmem) hfits hsize⟩

end Layout

end CallProbe
