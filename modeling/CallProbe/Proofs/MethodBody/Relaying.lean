import CallProbe.Proofs.Instruction.Growing
import CallProbe.Proofs.MethodBody.Moving

/-!
# Bodies that are laid out anew

When the instructions of a body have grown, its tables follow them to their new starts.
The labels and lines that are read from the moved body are those of the old one at the
new starts, so the moved body is read as the grown stream.
-/

namespace CallProbe

open Layout

namespace MethodBody

variable {body moved : MethodBody} {entries : List (Nat × Instruction)}

theorem getD_linesByOffset (body : MethodBody) (offset : Nat) :
    body.linesByOffset.getD offset [] =
      (body.lineMarks.filter (·.start.toNat = offset)).map (·.line) := by
  unfold linesByOffset
  induction body.lineMarks with
  | nil => simp
  | cons mark rest ih =>
      rw [List.foldr_cons, Std.TreeMap.getD_insert, List.filter_cons]
      by_cases hstart : mark.start.toNat = offset
      · subst hstart
        simp [ih]
      · simp [hstart, ih]

theorem start_mem_offsets {mark : LineMark} (h : mark ∈ body.lineMarks) :
    mark.start.toNat ∈ body.offsets := by
  obtain ⟨nested, hnested, hmark⟩ := List.mem_flatMap.1 h
  refine List.mem_append.2 (.inr (List.mem_flatMap.2 ⟨nested, hnested, ?_⟩))
  cases nested with
  | lineNumbers name marks => exact List.mem_map_of_mem hmark
  | _ => cases hmark

/-- A line starts at a label only. -/
theorem contains_of_lines {offset : Nat} (h : body.linesByOffset.getD offset [] ≠ []) :
    (body.labels entries).contains offset = true := by
  rw [getD_linesByOffset, Ne, List.map_eq_nil_iff] at h
  obtain ⟨mark, hmark⟩ := List.exists_mem_of_ne_nil _ h
  obtain ⟨hmem, hstart⟩ := List.mem_filter.1 hmark
  refine labels_contains_iff.2 (.inr ?_)
  rw [← of_decide_eq_true hstart]
  exact start_mem_offsets hmem

end MethodBody

/-- The instructions of a body have grown and are laid out, and its tables have moved along. -/
structure Relaid (pool left : Pool) (body moved : MethodBody) (entries : List (Nat × Instruction))
    (placements : List Placement) (layout : Layout) (moves : List (Nat × Nat)) : Prop where
  tiles : Instruction.Tiles pool body.code.length 0 entries body.code
  bounded : body.Bounded entries
  lays : Lays {} pool placements layout left
  wellFormed : ∀ placement ∈ placements, placement.instruction.WellFormed pool
  encodable : ∀ placement ∈ placements, placement.Encodable layout.labels
  targets : ∀ target, (∃ placement ∈ placements, target ∈ placement.instruction.targets) ↔
    ∃ entry ∈ entries, target ∈ entry.2.targets
  spreads : Spreads (body.labels entries) body.linesByOffset body.code.length 0 entries placements
    moves layout.length
  moved : body.Moved (layout.labels[·]?) (placements.flatMap (Placement.bytes layout.labels)) moved

namespace Relaid

variable {pool left : Pool} {body moved : MethodBody} {entries : List (Nat × Instruction)}
  {placements : List Placement} {layout : Layout} {moves : List (Nat × Nat)}
  (h : Relaid pool left body moved entries placements layout moves)

include h

/-- A label is placed at the new start of its offset. -/
theorem place_iff {offset place : Nat} : layout.labels[offset]? = some place ↔
    (body.labels entries).contains offset = true ∧ (offset, place) ∈ moves :=
  h.spreads.place_iff h.lays

theorem starts_lt : (entries.map (·.1) ++ [body.code.length]).Pairwise (· < ·) :=
  h.tiles.starts_lt_length

/-- Places keep the order of the offsets. -/
theorem place_lt {a b p q : Nat} (ha : layout.labels[a]? = some p)
    (hb : layout.labels[b]? = some q) : a < b ↔ p < q :=
  h.spreads.lt_iff h.starts_lt (h.place_iff.1 ha).2 (h.place_iff.1 hb).2

theorem monotoneOn (offsets : List Nat) :
    Relocation.MonotoneOn (layout.labels[·]?) offsets := by
  intro a b p q _ _ hle ha hb
  have hlt := h.place_lt hb ha
  omega

theorem offsets :
    List.Forall₂ (fun old new => layout.labels[old]? = some new) body.offsets moved.offsets :=
  h.moved.offsets (h.monotoneOn _)

/-- What the moved body refers to are the places of what the old one refers to. -/
theorem labels_iff {place : Nat} :
    (moved.labels (reals layout.labels placements)).contains place = true ↔
      ∃ offset : Nat, layout.labels[offset]? = some place := by
  rw [MethodBody.labels_contains_iff]
  constructor
  · intro hplace
    rcases hplace with ⟨entry, hentry, htarget⟩ | hoffset
    · obtain ⟨placement, hplacement, -, rfl⟩ := mem_reals_iff.1 hentry
      rw [Placement.resolved, Instruction.targets_resolved] at htarget
      obtain ⟨target, hmention, rfl⟩ := List.mem_map.1 htarget
      have hplaced := (h.encodable placement hplacement).1 target hmention
      exact ⟨target, place_eq_some_iff.2 ⟨hplaced, rfl⟩⟩
    · obtain ⟨offset, -, hplace⟩ := exists_mem_of_forall₂ h.offsets hoffset
      exact ⟨offset, hplace⟩
  · intro hplace
    rcases hplace with ⟨offset, hplace⟩
    have hnew : newPlace layout.labels offset = place := (place_eq_some_iff.1 hplace).2
    rcases MethodBody.labels_contains_iff.1 (h.place_iff.1 hplace).1 with hbranch | htable
    · obtain ⟨placement, hplacement, htarget⟩ := (h.targets offset).2 hbranch
      have hreal : placement.instruction.isPseudo = false := by
        cases hinstruction : placement.instruction <;>
          simp [hinstruction, Instruction.targets] at htarget <;> rfl
      refine .inl ⟨_, mem_reals_iff.2 ⟨placement, hplacement, hreal, rfl⟩, ?_⟩
      rw [Placement.resolved, Instruction.targets_resolved, ← hnew]
      exact List.mem_map_of_mem htarget
    · obtain ⟨other, hother, hmoved⟩ := exists_mem_of_forall₂ h.offsets.flip htable
      have hsame : other = place := Option.some.inj (hmoved.symm.trans hplace)
      exact .inr (hsame ▸ hother)

theorem contains_iff :
    ∀ move ∈ moves, (moved.labels (reals layout.labels placements)).contains move.2 =
      (body.labels entries).contains move.1 := by
  intro move hmove
  rw [Bool.eq_iff_iff, h.labels_iff]
  constructor
  · intro hplace
    rcases hplace with ⟨offset, hplace⟩
    obtain ⟨hlabel, hoffset⟩ := h.place_iff.1 hplace
    have hsame : offset = move.1 := (h.spreads.eq_iff h.starts_lt hoffset hmove).2 rfl
    rwa [hsame] at hlabel
  · intro hlabel
    exact ⟨move.1, h.place_iff.2 ⟨hlabel, hmove⟩⟩

theorem lines_eq :
    ∀ move ∈ moves,
      moved.linesByOffset.getD move.2 [] = body.linesByOffset.getD move.1 [] := by
  intro move hmove
  rw [MethodBody.getD_linesByOffset, MethodBody.getD_linesByOffset]
  apply LineMark.lines_moved h.moved.lineMarks
  intro old new hplace
  exact h.spreads.eq_iff h.starts_lt (h.place_iff.1 hplace).2 hmove

theorem unmarked {place : Nat}
    (hnone : ∀ move ∈ moves, move.2 ≠ place) :
    (moved.labels (reals layout.labels placements)).contains place = false ∧
      moved.linesByOffset.getD place [] = [] := by
  have hlabel : (moved.labels (reals layout.labels placements)).contains place ≠ true := by
    rw [Ne, h.labels_iff]
    intro hplace
    rcases hplace with ⟨offset, hplace⟩
    exact hnone _ (h.place_iff.1 hplace).2 rfl
  refine ⟨Bool.eq_false_iff.2 hlabel, ?_⟩
  by_contra hlines
  exact hlabel (MethodBody.contains_of_lines hlines)

theorem newPlace_eq :
    ∀ move ∈ moves, (body.labels entries).contains move.1 = true →
      newPlace layout.labels move.1 = move.2 := by
  intro move hmove hlabel
  exact (place_eq_some_iff.1 (h.place_iff.2 ⟨hlabel, hmove⟩)).2

theorem length_code :
    moved.code.length = layout.length := by
  have hlength := h.lays.consecutive.length_bytes layout.labels
  rwa [Nat.zero_add, ← h.moved.code] at hlength

theorem storable_moved (hs : pool.Sound) (hstorable : body.Storable pool) :
    moved.Storable left := by
  obtain ⟨-, hext, -⟩ := h.lays.pool hs
  have hlength : moved.code.length = layout.length := h.length_code
  rw [h.moved.code] at hlength
  have hne : entries ≠ [] := by
    rintro rfl
    exact hstorable.code_ne_nil h.tiles.code_eq_nil
  have hpos : 0 < layout.length := h.spreads.lt hne
  have hle : layout.length ≤ maxCodeLength := h.lays.length_le (Nat.zero_le _)
  refine (h.moved.storable hstorable ?_ (by omega)).extends hext
  intro hempty
  rw [hempty] at hlength
  exact Nat.ne_of_lt hpos hlength

/-- The events of the moved body are those of the grown stream, with everything at its place. -/
theorem events_eq :
    moved.events (reals layout.labels placements) = placements.map (·.resolved layout.labels) := by
  unfold MethodBody.events
  rw [h.length_code]
  exact h.spreads.events h.contains_iff h.lines_eq (fun _ _ => h.unmarked) h.newPlace_eq
    fun _ => MethodBody.contains_of_lines

/-- A branch never leads to the end of the code. -/
theorem target_lt {placement : Placement} (hplacement : placement ∈ placements) :
    ∀ target ∈ placement.instruction.targets,
      newPlace layout.labels target < layout.length := by
  intro target htarget
  obtain ⟨entry, hentry, hmention⟩ := (h.targets target).1 ⟨placement, hplacement, htarget⟩
  have hlt : target < body.code.length :=
    (h.tiles.mem hentry).1.inRange.target_lt target hmention
  have hplace := place_eq_some_iff.2 ⟨(h.encodable placement hplacement).1 target htarget, rfl⟩
  exact (h.spreads.lt_iff h.starts_lt (h.place_iff.1 hplace).2 h.spreads.stop_mem).1 hlt

theorem tiles_moved (hs : pool.Sound) : Instruction.Tiles left moved.code.length 0
      (reals layout.labels placements) moved.code := by
  rw [h.length_code, h.moved.code]
  exact h.lays.tiles hs h.wellFormed h.encodable fun _ => h.target_lt

theorem stream_moved (hs : pool.Sound) :
    moved.stream left = .ok (placements.map (·.resolved layout.labels)) := by
  refine MethodBody.stream_eq_ok_iff.2 ⟨_, h.tiles_moved hs, ?_, h.events_eq.symm⟩
  intro place hplace
  obtain ⟨offset, hplace⟩ := h.labels_iff.1 hplace
  rw [MethodBody.boundaries_contains_iff, h.length_code]
  rcases h.spreads.exists_real _ (h.place_iff.1 hplace).2 with hstop | hstart
  · exact .inl hstop
  · rcases hstart with ⟨placement, hplacement, hreal, hposition⟩
    exact .inr ⟨_, mem_reals_iff.2 ⟨placement, hplacement, hreal, rfl⟩, hposition⟩

theorem mentions_placed {placement : Placement} (hplacement : placement ∈ placements) :
    ∀ label ∈ placement.instruction.mentions, layout.labels.contains label = true := by
  intro label hlabel
  cases hinstruction : placement.instruction with
  | label name =>
      rw [hinstruction] at hlabel
      obtain rfl := List.mem_singleton.1 hlabel
      exact (place_eq_some_iff.1 (h.place_iff.2
        (h.spreads.label_iff.1 ⟨placement, hplacement, hinstruction, rfl⟩))).1
  | line number start =>
      rw [hinstruction] at hlabel
      obtain rfl := List.mem_singleton.1 hlabel
      obtain ⟨hnumber, hmove⟩ := h.spreads.line_moves placement hplacement hinstruction
      have hmarked : (body.labels entries).contains label = true :=
        MethodBody.contains_of_lines (List.ne_nil_of_mem hnumber)
      exact (place_eq_some_iff.1 (h.place_iff.2 ⟨hmarked, hmove⟩)).1
  | _ =>
      have htargets := (h.encodable placement hplacement).1 label
      rw [hinstruction] at hlabel htargets
      exact htargets hlabel

theorem readsAs_of_mem (hs : pool.Sound) {placement : Placement}
    (hplacement : placement ∈ placements) :
    placement.instruction.ReadsAs left (layout.labels[·]?) (placement.resolved layout.labels) := by
  obtain ⟨-, hext, hindexed⟩ := h.lays.pool hs
  exact Instruction.readsAs_resolved (h.mentions_placed hplacement)
    ((h.wellFormed placement hplacement).extends hext) (hindexed placement hplacement)

/-- The moved body is read as the grown stream. -/
theorem readsAs (hs : pool.Sound) :
    List.Forall₂ (Instruction.ReadsAs left (layout.labels[·]?)) (placements.map (·.instruction))
      (placements.map (·.resolved layout.labels)) := by
  rw [List.forall₂_map_left_iff, List.forall₂_map_right_iff, List.forall₂_same]
  exact fun _ => h.readsAs_of_mem hs

end Relaid

end CallProbe
