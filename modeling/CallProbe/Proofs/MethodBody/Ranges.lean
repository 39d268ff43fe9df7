import CallProbe.Proofs.MethodBody.Relaying

/-!
# Ranges that follow their instructions

A range covers the instructions that start in it. In a body that was laid out anew a moved range
covers everything that the instructions of the old one have become, and nothing else; what led to
an instruction leads to the first of those it has become.
-/

namespace CallProbe

open Layout

/-- An instruction with the one that has come to its place and those that were put behind it. -/
structure Counterpart where
  offset : Nat
  instruction : Instruction
  place : Nat
  read : Instruction
  others : List (Nat × Instruction)

namespace Counterpart

def old (counterpart : Counterpart) : Nat × Instruction :=
  (counterpart.offset, counterpart.instruction)

def new (counterpart : Counterpart) : List (Nat × Instruction) :=
  (counterpart.place, counterpart.read) :: counterpart.others

end Counterpart

/-- The second range covers whatever the instructions covered by the first one have become. -/
def SameCover (counterparts : List Counterpart) (start stop start' stop' : Nat) : Prop :=
  ∀ counterpart ∈ counterparts, ∀ entry ∈ counterpart.new,
    start ≤ counterpart.offset ∧ counterpart.offset < stop ↔ start' ≤ entry.1 ∧ entry.1 < stop'

/-- The second offset is the place of the instruction at the first one, or both are the ends of
their code arrays. -/
def SameTarget (counterparts : List Counterpart) (size size' old new : Nat) : Prop :=
  (∃ counterpart ∈ counterparts, counterpart.offset = old ∧ counterpart.place = new) ∨
    old = size ∧ new = size'

/-! ## Tables of a body -/

namespace NestedAttribute

def ranges : NestedAttribute → List VariableRange
  | localVariables _ _ ranges => ranges
  | _ => []

def frames : NestedAttribute → StackMap
  | stackMap _ frames => frames
  | _ => []

variable {relocation : Relocation} {old new : NestedAttribute}

theorem Moved.ranges (h : old.Moved relocation new) :
    List.Forall₂ (VariableRange.Moved relocation) old.ranges new.ranges := by
  cases old with
  | localVariables table name ranges =>
      rcases h with ⟨_, hranges, rfl⟩
      exact hranges
  | unknown name data =>
      cases h
      exact .nil
  | _ =>
      rcases h with ⟨_, -, rfl⟩
      exact .nil

theorem Moved.frames (h : old.Moved relocation new) :
    List.Forall₂ (Frame.Moved relocation) old.frames new.frames := by
  cases old with
  | stackMap name frames =>
      rcases h with ⟨_, hframes, rfl⟩
      exact hframes
  | unknown name data =>
      cases h
      exact .nil
  | _ =>
      rcases h with ⟨_, -, rfl⟩
      exact .nil

end NestedAttribute

namespace MethodBody

/-- The ranges of local variables of all tables, in stored order. -/
def ranges (body : MethodBody) : List VariableRange :=
  body.attributes.flatMap NestedAttribute.ranges

/-- The frames of all stack maps, in stored order. -/
def frames (body : MethodBody) : List Frame := body.attributes.flatMap NestedAttribute.frames

variable {relocation : Relocation} {code : Bytes} {body moved : MethodBody}

theorem Moved.ranges (h : body.Moved relocation code moved) :
    List.Forall₂ (VariableRange.Moved relocation) body.ranges moved.ranges := by
  have hattributes : List.Forall₂ _
      ((body.attributes.filter NestedAttribute.isKnown).flatMap NestedAttribute.ranges) _ :=
    List.rel_flatMap h.attributes fun _ _ hnested => hnested.ranges
  rwa [NestedAttribute.flatMap_filter_isKnown fun _ _ => rfl] at hattributes

theorem Moved.frames (h : body.Moved relocation code moved) :
    List.Forall₂ (Frame.Moved relocation) body.frames moved.frames := by
  have hattributes : List.Forall₂ _
      ((body.attributes.filter NestedAttribute.isKnown).flatMap NestedAttribute.frames) _ :=
    List.rel_flatMap h.attributes fun _ _ hnested => hnested.frames
  rwa [NestedAttribute.flatMap_filter_isKnown fun _ _ => rfl] at hattributes

end MethodBody

/-- The instructions of a body and those of the moved one are accounted for by `counterparts`, and
whatever refers to offsets goes with them by way of `place`. -/
structure Follows (pool left : Pool) (body moved : MethodBody) (counterparts : List Counterpart)
    (place : Relocation) : Prop where
  before : Instruction.readAll pool body.code = .ok (counterparts.map Counterpart.old)
  after : Instruction.readAll left moved.code = .ok (counterparts.flatMap Counterpart.new)
  targets : ∀ {old new : Nat}, place old = some new →
    SameTarget counterparts body.code.length moved.code.length old new
  handlers : List.Forall₂ (fun old new => old.Moved place new ∧
    SameCover counterparts old.start.toNat old.stop.toNat new.start.toNat new.stop.toNat)
    body.handlers moved.handlers
  ranges : List.Forall₂ (fun old new => old.Moved place new ∧
    SameCover counterparts old.start.toNat old.stop new.start.toNat new.stop)
    body.ranges moved.ranges
  frames : List.Forall₂ (Frame.Moved place) body.frames moved.frames

/-! ## Bodies that were laid out anew -/

/-- What a layout makes of an instruction. -/
def Growth.counterpart (labels : Std.TreeMap Nat Nat) (growth : Growth) : Counterpart where
  offset := growth.entry.1
  instruction := growth.entry.2
  place := growth.first.position
  read := growth.first.resolved labels
  others := growth.others.map fun placement => (placement.position, placement.resolved labels)

theorem Growth.new_counterpart (labels : Std.TreeMap Nat Nat) (growth : Growth) :
    (growth.counterpart labels).new =
      growth.placements.map fun placement => (placement.position, placement.resolved labels) := rfl

namespace Relaid

variable {pool left : Pool} {body moved : MethodBody} {placements : List Placement}
  {layout : Layout} {moves : List (Nat × Nat)} {growths : List Growth}
  (h : Relaid pool left body moved (growths.map Growth.entry) placements layout moves)
  (hgrows : GrowsBy (body.labels (growths.map Growth.entry)) body.linesByOffset body.code.length 0
    placements growths layout.length)

include h hgrows

theorem mem_moves {old new : Nat} (hplace : layout.labels[old]? = some new) :
    (old, new) ∈ growths.map Growth.move ++ [(body.code.length, layout.length)] :=
  ((hgrows.spreads.place_iff h.lays).1 hplace).2

/-- An instruction and all that it has become are on the same side of an offset and its place. -/
theorem le_iff {old new : Nat} (hplace : layout.labels[old]? = some new) {growth : Growth}
    (hgrowth : growth ∈ growths) {placement : Placement}
    (hplacement : placement ∈ growth.placements) :
    old ≤ growth.entry.1 ↔ new ≤ placement.position := by
  have hmove := h.mem_moves hgrows hplace
  have hown : growth.move ∈ growths.map Growth.move ++ [(body.code.length, layout.length)] :=
    List.mem_append_left _ (List.mem_map_of_mem hgrowth)
  have hlt : growth.entry.1 < old ↔ growth.first.position < new :=
    hgrows.spreads.lt_iff h.starts_lt hown hmove
  have htogether := hgrows.together growth hgrowth placement hplacement _ hmove
  omega

theorem sameCover {start stop start' stop' : Nat} (hstart : layout.labels[start]? = some start')
    (hstop : layout.labels[stop]? = some stop') :
    SameCover (growths.map (Growth.counterpart layout.labels)) start stop start' stop' := by
  intro counterpart hcounterpart entry hentry
  obtain ⟨growth, hgrowth, rfl⟩ := List.mem_map.1 hcounterpart
  rw [Growth.new_counterpart] at hentry
  obtain ⟨placement, hplacement, rfl⟩ := List.mem_map.1 hentry
  have hfirst := h.le_iff hgrows hstart hgrowth hplacement
  have hlast := h.le_iff hgrows hstop hgrowth hplacement
  dsimp only [Growth.counterpart]
  omega

theorem sameTarget {old new : Nat} (hplace : layout.labels[old]? = some new) :
    SameTarget (growths.map (Growth.counterpart layout.labels)) body.code.length moved.code.length
      old new := by
  rw [h.length_code]
  rcases List.mem_append.1 (h.mem_moves hgrows hplace) with hstart | hend
  · obtain ⟨growth, hgrowth, hmove⟩ := List.mem_map.1 hstart
    cases hmove
    exact .inl ⟨_, List.mem_map_of_mem hgrowth, rfl, rfl⟩
  · cases List.mem_singleton.1 hend
    exact .inr ⟨rfl, rfl⟩

/-- Everything in the moved body has followed its instructions. -/
theorem follows (hs : pool.Sound) : Follows pool left body moved
    (growths.map (Growth.counterpart layout.labels)) (layout.labels[·]?) := by
  refine ⟨?_, ?_, h.sameTarget hgrows, ?_, ?_, h.moved.frames⟩
  · rw [List.map_map]
    exact Instruction.readAll_eq_ok_iff.2 h.tiles
  · have htiles := h.tiles_moved hs
    rw [reals, hgrows.reals, List.map_flatMap] at htiles
    rw [List.flatMap_map]
    exact Instruction.readAll_eq_ok_iff.2 htiles
  · exact h.moved.handlers.imp fun _ _ hmoved =>
      ⟨hmoved, h.sameCover hgrows hmoved.start hmoved.stop⟩
  · refine h.moved.ranges.imp fun _ _ hmoved => ⟨hmoved, ?_⟩
    have hoffsets := hmoved.offsets (h.monotoneOn _)
    cases hoffsets with
    | cons hstart hrest =>
        cases hrest with
        | cons hstop _ => exact h.sameCover hgrows hstart hstop

end Relaid

end CallProbe
