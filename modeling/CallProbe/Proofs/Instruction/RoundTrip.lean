import CallProbe.Proofs.Instruction.ReadBack

/-!
# Round trips of code

Reading undoes writing for any stream of well-formed instructions, and writing undoes
reading up to the bytes that nobody reads.
-/

namespace CallProbe

open Outcome

variable {pool left : Pool}

/-! ## Reading what was encoded -/

/-- A label of the stream with a real instruction behind it. -/
def LeadsOn (stream : List Instruction) (label : Label) : Prop :=
  ∃ front back, stream = front ++ .label label :: back ∧
    ∃ instruction ∈ back, instruction.isPseudo = false

theorem MethodBody.filter_events {body : MethodBody} {instructions : List (Nat × Instruction)}
    (h : ∀ entry ∈ instructions, entry.2.isPseudo = false) :
    (body.events instructions).filter (!·.isPseudo) = instructions.map (·.2) := by
  have hnone {events : List Instruction} (hpseudo : ∀ event ∈ events, event.isPseudo = true) :
      events.filter (!·.isPseudo) = [] := by
    rw [List.filter_eq_nil_iff]
    intro event hevent
    simp [hpseudo event hevent]
  unfold events
  generalize body.labels instructions = labels
  rw [List.filter_append, hnone isPseudo_labelAt, List.append_nil]
  induction instructions with
  | nil => rfl
  | cons entry rest ih =>
      obtain ⟨hentry, hrest⟩ := List.forall_mem_cons.1 h
      rw [List.flatMap_cons, List.filter_append, ih hrest, eventsAt_eq, List.filter_append,
        hnone isPseudo_marksAt]
      simp [hentry]

/-- The place of a label that leads on is the position of a real instruction. -/
theorem Layout.Lays.exists_real {placements : List Placement} {layout : Layout}
    (h : Lays {} pool placements layout left) {label : Label}
    (hleads : LeadsOn (placements.map Placement.instruction) label) :
    ∃ placement ∈ placements, placement.instruction.isPseudo = false ∧
      placement.position = newPlace layout.labels label := by
  rcases hleads with ⟨front, back, hsplit, instruction, hmem, hreal⟩
  obtain ⟨before, rest, rfl, hfront, hrest⟩ := List.map_eq_append_iff.1 hsplit
  obtain ⟨mark, behind, rfl, hmark, hback⟩ := List.map_eq_cons_iff.1 hrest
  obtain ⟨_, hbefore, hconsecutive⟩ := consecutive_append_iff.1 h.consecutive
  have hplace : newPlace layout.labels label = mark.position :=
    (h.newPlace_mark (by simp) hmark).2
  rw [hplace]
  cases hconsecutive with
  | cons tail =>
      rw [Placement.size_of_pseudo (by rw [hmark]; rfl)] at tail
      obtain ⟨placement, hplacement, hinstruction⟩ := List.mem_map.1 (hback ▸ hmem)
      obtain ⟨first, hfirst, hfirstReal, hposition⟩ :=
        tail.exists_at_start ⟨placement, hplacement, by rw [hinstruction]; exact hreal⟩
      exact ⟨first, by simp [hfirst], hfirstReal, hposition⟩

/-- Encoding a stream and reading the code array again gives its real instructions, in order, with
everything symbolic in its place. -/
theorem stream_encodeStream {stream : List Instruction} {encoded : EncodedCode}
    (hbuilt : pool.Built) (hwell : ∀ instruction ∈ stream, instruction.WellFormed pool)
    (hleads : ∀ instruction ∈ stream, ∀ target ∈ instruction.targets, LeadsOn stream target)
    (h : encodeStream stream pool = (.ok encoded, left)) (maxStack maxLocals : UInt16) :
    ∃ decoded,
      MethodBody.stream { maxStack, maxLocals, code := encoded.code, handlers := [],
                          attributes := [] } left = .ok decoded ∧
      List.Forall₂ (Instruction.ReadsAs left (encoded.offsets[·]?))
        (stream.filter (!·.isPseudo)) (decoded.filter (!·.isPseudo)) := by
  obtain ⟨placements, layout, rfl, hlays, hencodable, rfl⟩ := encodeStream_eq_ok_iff.1 h
  obtain ⟨-, hext, hindexed⟩ := hlays.pool hbuilt.sound
  have hlength : (placements.flatMap (Placement.bytes layout.labels)).length = layout.length := by
    have hcount := hlays.consecutive.length_bytes layout.labels
    rwa [Nat.zero_add] at hcount
  have htarget : ∀ placement ∈ placements, ∀ target ∈ placement.instruction.targets,
      ∃ other ∈ placements, other.instruction.isPseudo = false ∧
        other.position = newPlace layout.labels target := by
    intro placement hmem target htarget
    exact hlays.exists_real (hleads _ (List.mem_map_of_mem hmem) target htarget)
  have htiles := hlays.tiles hbuilt.sound (fun placement hmem => hwell _ (List.mem_map_of_mem hmem))
    hencodable (by
      intro placement hmem target hmention
      obtain ⟨other, hother, hreal, hposition⟩ := htarget placement hmem target hmention
      have hfits := (hlays.consecutive.mem hother).2
      have hpos : 0 < other.size := Instruction.size_pos hreal ..
      omega)
  refine ⟨_, MethodBody.stream_eq_ok_iff.2 ⟨_, hlength ▸ htiles, ?_, rfl⟩, ?_⟩
  · intro label hlabel
    rcases MethodBody.labels_contains_iff.1 hlabel with hbranch | htable
    · rcases hbranch with ⟨entry, hentry, hmention⟩
      obtain ⟨placement, hmem, -, rfl⟩ := Layout.mem_reals_iff.1 hentry
      rw [Placement.resolved, Instruction.targets_resolved] at hmention
      obtain ⟨target, hmention', rfl⟩ := List.mem_map.1 hmention
      obtain ⟨other, hother, hreal, hposition⟩ := htarget placement hmem target hmention'
      have hstart : (other.position, other.resolved layout.labels) ∈
          Layout.reals layout.labels placements :=
        Layout.mem_reals_iff.2 ⟨other, hother, hreal, rfl⟩
      exact MethodBody.boundaries_contains_iff.2 (.inr ⟨_, hstart, hposition⟩)
    · cases htable
  · rw [MethodBody.filter_events htiles.not_pseudo, Layout.reals, List.map_map, List.filter_map,
      List.forall₂_map_left_iff, List.forall₂_map_right_iff]
    refine List.forall₂_same.2 ?_
    intro placement hfilter
    obtain ⟨hmem, hreal⟩ := List.mem_filter.1 hfilter
    have hreal : placement.instruction.isPseudo = false := by simpa using hreal
    apply Instruction.readsAs_resolved
    · rw [Instruction.mentions_eq_targets hreal]
      exact (hencodable placement hmem).1
    · exact (hwell _ (List.mem_map_of_mem hmem)).extends hext
    · exact hindexed placement hmem

/-- A loop that pushes a text and pops it again. -/
def textLoop : List Instruction :=
  [.label 4, .loadString "again", .simple 0x57, .jump 0xA7 4]

def poolOfText : Pool := (Pool.new.append (.utf8 "again")).append (.string 1)

def encodedLoop : EncodedCode where
  code := [0x12, 2, 0x57, 0xA7, 0xFF, 0xFD]
  offsets := (∅ : Std.TreeMap Nat Nat).insert 4 0

theorem addString_again : Pool.addString "again" Pool.new = (.ok 2, poolOfText) := by
  have hlength : ModifiedUtf8.encodedLength "again" = 5 := by cbv
  have htext : Pool.addText "again" Pool.new = (.ok 1, Pool.new.append (.utf8 "again")) := by
    apply Pool.add_of_fresh
    · simp [Pool.new]
    · simp [Constant.textLength, hlength, maxTextLength]
    · decide
  have hstring : Pool.add (.string 1) (Pool.new.append (.utf8 "again")) = (.ok 2, poolOfText) := by
    apply Pool.add_of_fresh
    · simp [Pool.new, Pool.append]
    · decide
    · decide
  exact Pool.Edit.bind_eq_ok_iff.2 ⟨1, _, htext, hstring⟩

theorem encodeStream_textLoop :
    encodeStream textLoop Pool.new = (.ok encodedLoop, poolOfText) := by
  have hload : Layout.place { placed := [⟨.label 4, 0, 0⟩], labels := encodedLoop.offsets }
      (.loadString "again") Pool.new =
      (.ok { placed := [⟨.loadString "again", 0, 2⟩, ⟨.label 4, 0, 0⟩],
             labels := encodedLoop.offsets, length := 2 }, poolOfText) :=
    Pool.Edit.bind_eq_ok_iff.2 ⟨2, _, addString_again, rfl⟩
  have hlayout : Layout.ofStream textLoop Pool.new =
      (.ok { placed := [⟨.jump 0xA7 4, 3, 0⟩, ⟨.simple 0x57, 2, 0⟩, ⟨.loadString "again", 0, 2⟩,
               ⟨.label 4, 0, 0⟩],
             labels := encodedLoop.offsets, length := 6 }, poolOfText) :=
    Pool.Edit.bind_eq_ok_iff.2 ⟨_, _, rfl, Pool.Edit.bind_eq_ok_iff.2 ⟨_, _, hload, rfl⟩⟩
  exact Pool.Edit.bind_eq_ok_iff.2 ⟨_, _, hlayout, rfl⟩

theorem textLoop_reads_back :
    Pool.new.Built ∧ (∀ instruction ∈ textLoop, instruction.WellFormed Pool.new) ∧
      (∀ instruction ∈ textLoop, ∀ target ∈ instruction.targets, LeadsOn textLoop target) ∧
      encodeStream textLoop Pool.new = (.ok encodedLoop, poolOfText) ∧
      ∃ decoded,
        MethodBody.stream { maxStack := 1, maxLocals := 0, code := encodedLoop.code, handlers := [],
                            attributes := [] } poolOfText = .ok decoded ∧
        List.Forall₂ (Instruction.ReadsAs poolOfText (encodedLoop.offsets[·]?))
          (textLoop.filter (!·.isPseudo)) (decoded.filter (!·.isPseudo)) := by
  have hwell : ∀ instruction ∈ textLoop, instruction.WellFormed Pool.new := by
    simp [textLoop, Instruction.WellFormed]
    decide
  have hleads : ∀ instruction ∈ textLoop, ∀ target ∈ instruction.targets,
      LeadsOn textLoop target := by
    have hloop : LeadsOn textLoop 4 :=
      ⟨[], [.loadString "again", .simple 0x57, .jump 0xA7 4], rfl, .simple 0x57, by simp, rfl⟩
    simpa [textLoop, Instruction.targets] using hloop
  exact ⟨.new, hwell, hleads, encodeStream_textLoop,
    stream_encodeStream .new hwell hleads encodeStream_textLoop 1 0⟩

/-! ## Encoding what was read -/

namespace Instruction

variable {labels : Std.TreeMap Nat Nat} {size offset : Nat} {instruction : Instruction}

/-- The pool index that an instruction was read with, zero if it has no symbolic operand. -/
def storedIndex : Instruction → UInt16
  | invoke call => call.poolIndex.getD 0
  | _ => 0

theorem InRange.lower (h : instruction.InRange size offset) :
    instruction.lower pool = (.ok instruction.storedIndex, pool) := by
  cases instruction with
  | loadString _ => exact h.elim
  | invoke call =>
      obtain ⟨index, hindex⟩ := Option.isSome_iff_exists.1 h.1
      simp only [Instruction.lower, storedIndex, hindex]
      rfl
  | _ => rfl

/-- Labels that stay where they are leave the instruction as it is. -/
theorem InRange.resolved (h : instruction.InRange size offset) {move : Label → Nat}
    (hstay : ∀ target ∈ instruction.targets, move target = target) :
    instruction.resolved move instruction.storedIndex = instruction := by
  cases instruction with
  | label _ => exact h.elim
  | line _ _ => exact h.elim
  | loadString _ => exact h.elim
  | jump opcode target => simp [Instruction.resolved, hstay target (List.mem_singleton_self _)]
  | tableSwitch default low high targets =>
      obtain ⟨hdefault, htargets⟩ := List.forall_mem_cons.1 hstay
      simp only [Instruction.resolved, hdefault, List.map_congr_left htargets, List.map_id']
  | lookupSwitch default pairs =>
      obtain ⟨hdefault, htargets⟩ := List.forall_mem_cons.1 hstay
      have hpairs : ∀ pair ∈ pairs, (pair.1, move pair.2) = pair := by
        intro pair hpair
        rw [htargets pair.2 (List.mem_map_of_mem hpair)]
      simp only [Instruction.resolved, hdefault, List.map_congr_left hpairs, List.map_id']
  | invoke call =>
      obtain ⟨index, hindex⟩ := Option.isSome_iff_exists.1 h.1
      simp only [Instruction.resolved, storedIndex, hindex, Option.getD_some]
      rw [← hindex]
  | _ => rfl

theorem InRange.encodable (h : instruction.InRange size offset)
    (hplaced : ∀ target ∈ instruction.targets, labels.contains target = true)
    (hstay : ∀ target ∈ instruction.targets, newPlace labels target = target) :
    instruction.Encodable labels offset := by
  refine ⟨hplaced, ?_⟩
  cases instruction with
  | jump opcode target =>
      intro hshort
      have hreach := h.2
      rw [hstay target (List.mem_singleton_self _)]
      simpa [hshort] using hreach
  | invoke call => exact h.2
  | label _ => exact h.elim
  | line _ _ => exact h.elim
  | loadString _ => exact h.elim
  | tableSwitch _ _ _ _ => trivial
  | lookupSwitch _ _ => trivial
  | _ => exact h

theorem marked?_eq_some_iff {label : Label} :
    instruction.marked? = some label ↔ instruction = .label label := by
  cases instruction <;> simp [marked?]

theorem mem_filterMap_marked?_iff {stream : List Instruction} {label : Label} :
    label ∈ stream.filterMap marked? ↔ .label label ∈ stream := by
  rw [List.mem_filterMap]
  constructor
  · intro h
    rcases h with ⟨event, hevent, hmarked⟩
    rwa [marked?_eq_some_iff.1 hmarked] at hevent
  · intro h
    exact ⟨_, h, rfl⟩

/-- The event at its own offset, with its own pool index. -/
def placedAt (offset : Nat) (instruction : Instruction) : Placement :=
  { instruction, position := offset, index := instruction.storedIndex }

end Instruction

namespace Layout

variable {placements : List Placement} {start stop : Nat}

theorem consecutive_pseudo {events : List Instruction}
    (h : ∀ event ∈ events, event.isPseudo = true) (offset : Nat) :
    Consecutive offset (events.map (Instruction.placedAt offset)) offset := by
  induction events with
  | nil => exact .nil
  | cons event rest ih =>
      obtain ⟨hevent, hrest⟩ := List.forall_mem_cons.1 h
      have hsize : (event.placedAt offset).size = 0 := Placement.size_of_pseudo hevent
      have htail := ih hrest
      show Consecutive (event.placedAt offset).position (event.placedAt offset :: _) offset
      refine .cons ?_
      rwa [hsize]

theorem contains_add_iff {layout : Layout} {placement : Placement} {label : Label} :
    (layout.add placement).labels.contains label = true ↔
      placement.instruction.marked? = some label ∨ layout.labels.contains label = true := by
  unfold add
  split
  · rename_i first hfirst
    simp [hfirst, Instruction.marked?]
  · rename_i hother
    simp only [Instruction.marked?_eq_some_iff]
    constructor
    · intro h
      exact .inr h
    · intro h
      rcases h with hlabel | hold
      · exact (hother label hlabel).elim
      · exact hold

/-- Placements without gaps come about if their operands can be added and they mark different
labels. -/
theorem Consecutive.lays_of_lowered (h : Consecutive start placements stop) {layout : Layout}
    (hstart : layout.length = start)
    (hlower : (placements.map Placement.instruction).mapM Instruction.lower pool =
      (.ok (placements.map Placement.index), left))
    (hnodup : (placements.filterMap (·.instruction.marked?)).Nodup)
    (hfresh : ∀ label ∈ placements.filterMap (·.instruction.marked?),
      layout.labels.contains label = false) (hstop : stop ≤ maxCodeLength) :
    ∃ result, Lays layout pool placements result left := by
  induction h generalizing layout pool with
  | nil =>
      obtain ⟨-, rfl⟩ := Pool.Edit.pure_eq_ok_iff.1 hlower
      exact ⟨layout, .nil⟩
  | @cons stop placement rest tail ih =>
      obtain ⟨index, indices, middle, hhead, hrest, heq⟩ := mapM_lower_cons.1 hlower
      obtain ⟨rfl, rfl⟩ := List.cons.inj heq
      have hle := tail.le
      have hsub : (rest.filterMap (·.instruction.marked?)).Sublist
          ((placement :: rest).filterMap (·.instruction.marked?)) :=
        (List.sublist_cons_self placement rest).filterMap _
      have hadmits : layout.Admits placement := by
        refine ⟨hstart.symm, ?_, by omega⟩
        intro label hlabel
        exact hfresh label (by simp [hlabel, Instruction.marked?])
      have hfirst : ∀ label, placement.instruction.marked? = some label →
          label ∉ rest.filterMap (·.instruction.marked?) := by
        intro label hmarked
        simp only [List.filterMap_cons, hmarked] at hnodup
        exact (List.nodup_cons.1 hnodup).1
      have hnext : ∀ label ∈ rest.filterMap (·.instruction.marked?),
          (layout.add placement).labels.contains label = false := by
        intro label hlabel
        rw [Bool.eq_false_iff]
        intro hknown
        rcases contains_add_iff.1 hknown with hmarked | hold
        · exact hfirst label hmarked hlabel
        · rw [hfresh label (hsub.subset hlabel)] at hold
          cases hold
      obtain ⟨result, hlays⟩ := ih (by rw [add, hstart]) hrest (hnodup.sublist hsub) hnext hstop
      exact ⟨result, .cons hadmits hhead hlays⟩

/-- The same where they need nothing of the pool. -/
theorem Consecutive.lays (h : Consecutive start placements stop) {layout : Layout}
    (hstart : layout.length = start)
    (hlower : ∀ placement ∈ placements,
      placement.instruction.lower pool = (.ok placement.index, pool))
    (hnodup : (placements.filterMap (·.instruction.marked?)).Nodup)
    (hfresh : ∀ label ∈ placements.filterMap (·.instruction.marked?),
      layout.labels.contains label = false) (hstop : stop ≤ maxCodeLength) :
    ∃ result, Lays layout pool placements result pool :=
  h.lays_of_lowered hstart (mapM_lower_of_unchanged hlower) hnodup hfresh hstop

end Layout

namespace MethodBody

open Instruction Layout

variable {body : MethodBody} {instructions : List (Nat × Instruction)}

/-- The events of a body, each where it was read. -/
def inPlace (body : MethodBody) (instructions : List (Nat × Instruction)) : List Placement :=
  (instructions.flatMap fun entry =>
      (eventsAt (body.labels instructions) body.linesByOffset entry).map (placedAt entry.1))
    ++ (labelAt (body.labels instructions) body.code.length).map (placedAt body.code.length)

theorem instruction_inPlace :
    (body.inPlace instructions).map Placement.instruction = body.events instructions := by
  have hplaced (offset : Nat) : Placement.instruction ∘ placedAt offset = id := rfl
  simp [inPlace, events, List.map_flatMap, hplaced]

theorem consecutive_inPlace (h : Tiles pool body.code.length 0 instructions body.code) :
    Consecutive 0 (body.inPlace instructions) body.code.length := by
  unfold inPlace
  generalize body.labels instructions = labels
  refine consecutive_append_iff.2 ⟨body.code.length, ?_, consecutive_pseudo isPseudo_labelAt _⟩
  suffices hrow : ∀ {size offset : Nat} {code : Bytes}, Tiles pool size offset instructions code →
      Consecutive offset (instructions.flatMap fun entry =>
        (eventsAt labels body.linesByOffset entry).map (placedAt entry.1))
        (offset + code.length) by
    simpa using hrow h
  intro size offset code htiles
  clear h
  induction htiles with
  | nil => exact .nil
  | @cons offset instruction rest bytes code readable fits tail ih =>
      rw [List.flatMap_cons, eventsAt_eq, List.map_append, List.append_assoc, List.length_append,
        ← Nat.add_assoc]
      have hsize : (instruction.placedAt offset).size = bytes.length := by
        rw [fits.length]
        exact (readable.length_pattern _).symm
      refine consecutive_append_iff.2 ⟨offset, consecutive_pseudo isPseudo_marksAt offset, ?_⟩
      show Consecutive (instruction.placedAt offset).position (instruction.placedAt offset :: _) _
      refine .cons ?_
      rw [hsize]
      exact ih

theorem mem_inPlace {placement : Placement} (h : placement ∈ body.inPlace instructions) :
    placement = placement.instruction.placedAt placement.position ∧
      (placement.instruction = .label placement.position ∨
        (∃ line, placement.instruction = .line line placement.position) ∨
        (placement.position, placement.instruction) ∈ instructions) := by
  rcases List.mem_append.1 h with hrow | hend
  · obtain ⟨entry, hentry, hplaced⟩ := List.mem_flatMap.1 hrow
    obtain ⟨event, hevent, rfl⟩ := List.mem_map.1 hplaced
    refine ⟨rfl, ?_⟩
    rcases List.mem_append.1 hevent with hfront | hself
    · rcases List.mem_append.1 hfront with hmark | hline
      · exact .inl (mem_labelAt_iff.1 hmark).2
      · obtain ⟨line, -, rfl⟩ := List.mem_map.1 hline
        exact .inr (.inl ⟨line, rfl⟩)
    · rw [List.mem_singleton.1 hself]
      exact .inr (.inr hentry)
  · obtain ⟨event, hevent, rfl⟩ := List.mem_map.1 hend
    exact ⟨rfl, .inl (mem_labelAt_iff.1 hevent).2⟩

theorem lower_inPlace (h : Tiles pool body.code.length 0 instructions body.code) :
    ∀ placement ∈ body.inPlace instructions,
      placement.instruction.lower pool = (.ok placement.index, pool) := by
  intro placement hmem
  obtain ⟨hplaced, hkind⟩ := mem_inPlace hmem
  rw [hplaced]
  rcases hkind with hlabel | ⟨line, hline⟩ | hentry
  · rw [hlabel]
    rfl
  · rw [hline]
    rfl
  · exact (h.mem hentry).1.inRange.lower

/-- The labels of a body that is laid out again stay where they are. -/
theorem label_inPlace (h : Tiles pool body.code.length 0 instructions body.code) {layout : Layout}
    (hlays : Lays {} pool (body.inPlace instructions) layout left) (label : Label) :
    layout.labels[label]? =
      if .label label ∈ body.events instructions then some label else none := by
  have hposition {placement : Placement} (hmem : placement ∈ body.inPlace instructions)
      (hmark : placement.instruction = .label label) : placement.position = label := by
    rcases (mem_inPlace hmem).2 with hlabel | ⟨line, hline⟩ | hentry
    · rw [hmark] at hlabel
      exact (Instruction.label.inj hlabel).symm
    · rw [hmark] at hline
      cases hline
    · have hreal := (h.mem hentry).1.not_pseudo
      rw [hmark] at hreal
      cases hreal
  have hmarked : .label label ∈ body.events instructions ↔ ∃ placement ∈ body.inPlace instructions,
      placement.instruction = .label label := by
    rw [← instruction_inPlace, List.mem_map]
  have hempty : ({} : Layout).labels[label]? = none := Std.TreeMap.getElem?_emptyc
  apply Option.ext
  intro place
  rw [hlays.labels_getElem?_iff, hempty]
  by_cases hlabel : .label label ∈ body.events instructions
  · rw [if_pos hlabel]
    constructor
    · intro h
      rcases h with hnone | ⟨placement, hmem, hmark, hplace⟩
      · cases hnone
      · rw [← hplace, hposition hmem hmark]
    · intro h
      cases h
      obtain ⟨placement, hmem, hmark⟩ := hmarked.1 hlabel
      exact .inr ⟨placement, hmem, hmark, hposition hmem hmark⟩
  · rw [if_neg hlabel]
    constructor
    · intro h
      rcases h with hnone | ⟨placement, hmem, hmark, -⟩
      · exact hnone
      · exact absurd (hmarked.2 ⟨placement, hmem, hmark⟩) hlabel
    · intro h
      cases h

/-- Every target of a body whose labels all stand at boundaries has a label in the stream. -/
theorem label_mem_events (hreal : ∀ entry ∈ instructions, entry.2.isPseudo = false)
    (hbound : body.Bounded instructions) {label : Label}
    (h : (body.labels instructions).contains label = true) :
    .label label ∈ body.events instructions := by
  rw [← mem_filterMap_marked?_iff, marked_events hreal, List.mem_filter]
  exact ⟨hbound.mem_starts h, h⟩

theorem bytes_inPlace (h : Tiles pool body.code.length 0 instructions body.code)
    {labels : Std.TreeMap Nat Nat}
    (hstay : ∀ entry ∈ instructions, ∀ target ∈ entry.2.targets, newPlace labels target = target) :
    (body.inPlace instructions).flatMap (Placement.bytes labels) = zeroedRow instructions := by
  have hpseudo {events : List Instruction} (hevents : ∀ event ∈ events, event.isPseudo = true)
      (offset : Nat) : (events.map (placedAt offset)).flatMap (Placement.bytes labels) = [] := by
    rw [List.flatMap_eq_nil_iff]
    intro placement hmem
    obtain ⟨event, hevent, rfl⟩ := List.mem_map.1 hmem
    exact Placement.bytes_of_pseudo (hevents event hevent)
  unfold inPlace zeroedRow
  rw [List.flatMap_append, hpseudo isPseudo_labelAt, List.append_nil, List.flatMap_assoc]
  refine List.flatMap_congr fun entry hentry => ?_
  have hrange := (h.mem hentry).1.inRange
  have hself : (entry.2.placedAt entry.1).bytes labels = (entry.2.pattern entry.1).zeroed := by
    unfold Placement.bytes Placement.resolved placedAt
    rw [hrange.resolved (hstay entry hentry)]
  rw [eventsAt_eq, List.map_append, List.flatMap_append, hpseudo isPseudo_marksAt,
    List.map_singleton, List.flatMap_singleton, hself]
  rfl

theorem nodup_marked_events (h : Tiles pool body.code.length 0 instructions body.code) :
    ((body.events instructions).filterMap marked?).Nodup := by
  rw [marked_events h.not_pseudo]
  exact (h.starts_lt_length.imp Nat.ne_of_lt).filter _

theorem nodup_inPlace (h : Tiles pool body.code.length 0 instructions body.code) :
    ((body.inPlace instructions).filterMap (·.instruction.marked?)).Nodup := by
  have hnodup : ((body.events instructions).filterMap marked?).Nodup := nodup_marked_events h
  rwa [← instruction_inPlace, List.filterMap_map] at hnodup

/-- All targets have labels that stay where they are. -/
theorem target_inPlace (h : Tiles pool body.code.length 0 instructions body.code)
    (hbound : body.Bounded instructions) {layout : Layout}
    (hlays : Lays {} pool (body.inPlace instructions) layout left) :
    ∀ entry ∈ instructions, ∀ target ∈ entry.2.targets,
      layout.labels.contains target = true ∧ newPlace layout.labels target = target := by
  intro entry hentry target htarget
  have hlabel : .label target ∈ body.events instructions :=
    label_mem_events h.not_pseudo hbound (labels_contains_iff.2 (.inl ⟨entry, hentry, htarget⟩))
  have hget := label_inPlace h hlays target
  rw [if_pos hlabel] at hget
  exact place_eq_some_iff.1 hget

theorem encodable_inPlace (h : Tiles pool body.code.length 0 instructions body.code)
    {labels : Std.TreeMap Nat Nat}
    (hstay : ∀ entry ∈ instructions, ∀ target ∈ entry.2.targets,
      labels.contains target = true ∧ newPlace labels target = target) :
    ∀ placement ∈ body.inPlace instructions, placement.Encodable labels := by
  intro placement hmem
  obtain ⟨-, hkind⟩ := mem_inPlace hmem
  rcases hkind with hlabel | ⟨line, hline⟩ | hentry
  · unfold Placement.Encodable
    rw [hlabel]
    exact ⟨by simp [targets], trivial⟩
  · unfold Placement.Encodable
    rw [hline]
    exact ⟨by simp [targets], trivial⟩
  · exact (h.mem hentry).1.inRange.encodable
      (fun target htarget => (hstay _ hentry target htarget).1)
      (fun target htarget => (hstay _ hentry target htarget).2)

/-- Zeros in place of the bytes that nobody reads make no difference to the stream. -/
theorem stream_zeroedRow (h : Tiles pool body.code.length 0 instructions body.code)
    (hbound : body.Bounded instructions) :
    MethodBody.stream { body with code := zeroedRow instructions } pool =
      .ok (body.events instructions) := by
  refine stream_eq_ok_iff.2 ⟨instructions, ?_, ?_, ?_⟩
  · dsimp only
    rw [h.length_zeroedRow]
    exact h.zeroed
  · intro label hlabel
    have hold := hbound label hlabel
    rw [boundaries_contains_iff] at hold ⊢
    dsimp only
    rwa [h.length_zeroedRow]
  · unfold events
    dsimp only
    rw [h.length_zeroedRow]
    rfl

/-- Encoding what was read from a code array leaves the pool alone, keeps every label where it was,
and changes no byte but those that nobody reads, so that reading gives the same stream again. -/
theorem encodeStream_stream {stream : List Instruction} (hlen : body.code.length ≤ maxCodeLength)
    (h : body.stream pool = .ok stream) :
    ∃ encoded instructions, encodeStream stream pool = (.ok encoded, pool) ∧
      readAll pool body.code = .ok instructions ∧
      (∀ label, encoded.offsets[label]? = if .label label ∈ stream then some label else none) ∧
      encoded.code.length = body.code.length ∧
      (∀ i, encoded.code[i]? =
        if ∃ entry ∈ instructions, i ∈ entry.2.reserved entry.1 then some 0 else body.code[i]?) ∧
      MethodBody.stream { body with code := encoded.code } pool = .ok stream := by
  obtain ⟨instructions, htiles, hbound, rfl⟩ := stream_eq_ok_iff.1 h
  have hempty : ({} : Layout).length = 0 := rfl
  obtain ⟨layout, hlays⟩ := (consecutive_inPlace htiles).lays hempty (lower_inPlace htiles)
    (nodup_inPlace htiles) (by intro label _; rfl) hlen
  have hstay := target_inPlace htiles hbound hlays
  have hcode : (body.inPlace instructions).flatMap (Placement.bytes layout.labels) =
      zeroedRow instructions :=
    bytes_inPlace htiles fun entry hentry target htarget => (hstay entry hentry target htarget).2
  have hencoded : encodeStream (body.events instructions) pool =
      (.ok { code := zeroedRow instructions, offsets := layout.labels }, pool) :=
    encodeStream_eq_ok_iff.2 ⟨_, layout, instruction_inPlace, hlays,
      encodable_inPlace htiles hstay, by rw [hcode]⟩
  refine ⟨_, instructions, hencoded, readAll_eq_ok_iff.2 htiles, label_inPlace htiles hlays,
    htiles.length_zeroedRow, ?_, stream_zeroedRow htiles hbound⟩
  intro i
  have hbyte := htiles.getElem?_zeroedRow i
  rwa [Nat.zero_add] at hbyte

/-- A jump table that was stored with other bytes than zeros in front of its operands. -/
def paddedTable : MethodBody where
  maxStack := 1
  maxLocals := 0
  code := [0xAA, 7, 7, 7, 0, 0, 0, 20, 0, 0, 0, 5, 0, 0, 0, 5, 0, 0, 0, 20, 0xB1]
  handlers := []
  attributes := [.lineNumbers 0 [{ start := 0, line := 9 }]]

theorem paddedTable_encodes :
    paddedTable.code.length ≤ maxCodeLength ∧
      paddedTable.stream Pool.new =
        .ok [.label 0, .line 9 0, .tableSwitch 20 5 5 [20], .label 20, .simple 0xB1] ∧
      ∃ encoded instructions,
        encodeStream [.label 0, .line 9 0, .tableSwitch 20 5 5 [20], .label 20, .simple 0xB1]
            Pool.new = (.ok encoded, Pool.new) ∧
        readAll Pool.new paddedTable.code = .ok instructions ∧
        encoded.offsets[20]? = some 20 ∧
        encoded.code.length = 21 ∧
        (∀ i, encoded.code[i]? =
          if ∃ entry ∈ instructions, i ∈ entry.2.reserved entry.1 then some 0
          else paddedTable.code[i]?) ∧
        MethodBody.stream { paddedTable with code := encoded.code } Pool.new =
          .ok [.label 0, .line 9 0, .tableSwitch 20 5 5 [20], .label 20, .simple 0xB1] := by
  have hstream : paddedTable.stream Pool.new =
      .ok [.label 0, .line 9 0, .tableSwitch 20 5 5 [20], .label 20, .simple 0xB1] := rfl
  obtain ⟨encoded, instructions, hencoded, hread, hplaces, hlength, hbytes, hagain⟩ :=
    encodeStream_stream (by decide) hstream
  exact ⟨by decide, hstream, encoded, instructions, hencoded, hread, hplaces 20, hlength, hbytes,
    hagain⟩

end MethodBody

end CallProbe
