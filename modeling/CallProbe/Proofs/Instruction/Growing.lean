import CallProbe.Proofs.Instruction.ReadBack

/-!
# Streams that grow

A stream grows when its instructions become one or more instructions each and its labels
and lines stay where they are, in front. Laid out, every old start has a new one; the
starts keep their order, and reading the new code array finds labels and lines at the new
starts and nowhere else.
-/

namespace CallProbe

open Layout MethodBody

section

variable (labels : Std.TreeSet Nat) (lines : Std.TreeMap Nat (List UInt16)) (size : Nat)

/-- The second stream is that of some instructions, each of them grown into a piece with the same
targets; `size` is where the instructions end. -/
inductive Grows : List (Nat × Instruction) → List Instruction → Prop
  | stop : Grows [] (labelAt labels size)
  | entry {entry : Nat × Instruction} {entries : List (Nat × Instruction)}
      {piece rest : List Instruction} (ne_nil : piece ≠ [])
      (real : ∀ instruction ∈ piece, instruction.isPseudo = false)
      (targets : ∀ target, (∃ instruction ∈ piece, target ∈ instruction.targets) ↔
        target ∈ entry.2.targets)
      (tail : Grows entries rest) :
      Grows (entry :: entries) (marksAt labels lines entry.1 ++ piece ++ rest)

/-- The stream in which instructions have become pieces. -/
def grown : List ((Nat × Instruction) × List Instruction) → List Instruction
  | [] => labelAt labels size
  | (entry, piece) :: rest => marksAt labels lines entry.1 ++ piece ++ grown rest

/-- The same where the grown stream is laid out. Every old start, and the end, is paired with the
new one in `moves`. -/
inductive Spreads : Nat → List (Nat × Instruction) → List Placement → List (Nat × Nat) → Nat → Prop
  | stop {marks : List Placement} {start : Nat}
      (marked : marks.map (·.instruction) = labelAt labels size)
      (standing : ∀ mark ∈ marks, mark.position = start) :
      Spreads start [] marks [(size, start)] start
  | entry {entry : Nat × Instruction} {entries : List (Nat × Instruction)}
      {marks others rest : List Placement} {first : Placement} {moves : List (Nat × Nat)}
      {next stop : Nat}
      (marked : marks.map (·.instruction) = marksAt labels lines entry.1)
      (standing : ∀ mark ∈ marks, mark.position = first.position)
      (real : ∀ placement ∈ first :: others, placement.instruction.isPseudo = false)
      (inside : ∀ placement ∈ others, first.position < placement.position ∧
        placement.position < next)
      (lt : first.position < next) (tail : Spreads next entries rest moves stop) :
      Spreads first.position (entry :: entries) (marks ++ first :: others ++ rest)
        ((entry.1, first.position) :: moves) stop

end

/-- The instruction can become the piece: it takes bytes and leads to the same places. -/
structure Instruction.GrowsInto (instruction : Instruction) (piece : List Instruction) : Prop where
  ne_nil : piece ≠ []
  real : ∀ other ∈ piece, other.isPseudo = false
  targets : ∀ target, (∃ other ∈ piece, target ∈ other.targets) ↔ target ∈ instruction.targets

/-- An old instruction and what it has become in a layout. -/
structure Growth where
  entry : Nat × Instruction
  first : Placement
  others : List Placement

namespace Growth

def placements (growth : Growth) : List Placement := growth.first :: growth.others

/-- The old start with the new one. -/
def move (growth : Growth) : Nat × Nat := (growth.entry.1, growth.first.position)

def piece (growth : Growth) : (Nat × Instruction) × List Instruction :=
  (growth.entry, growth.placements.map (·.instruction))

/-- What the instruction has become stands on one side of every new start. -/
def StaysTogether (growth : Growth) (moves : List (Nat × Nat)) : Prop :=
  ∀ placement ∈ growth.placements, ∀ move ∈ moves,
    move.2 ≤ placement.position ↔ move.2 ≤ growth.first.position

theorem staysTogether_cons {growth : Growth} {growths : List Growth} {moves : List (Nat × Nat)}
    {next : Nat} (hinside : ∀ placement ∈ growth.placements,
      growth.first.position ≤ placement.position ∧ placement.position < next)
    (hnext : ∀ move ∈ moves, next ≤ move.2) (hown : ∀ later ∈ growths, later.move ∈ moves)
    (h : ∀ later ∈ growths, later.StaysTogether moves) :
    ∀ other ∈ growth :: growths, other.StaysTogether (growth.move :: moves) := by
  have hfirst := (hinside growth.first List.mem_cons_self).2
  refine List.forall_mem_cons.2 ⟨?_, ?_⟩
  · intro placement hplacement move hmove
    obtain ⟨hle, hlt⟩ := hinside placement hplacement
    rcases List.mem_cons.1 hmove with rfl | hlater
    · exact iff_of_true hle (Nat.le_refl _)
    · have hbehind := hnext move hlater
      omega
  · intro later hlater placement hplacement move hmove
    have hstart : next ≤ later.first.position := hnext later.move (hown later hlater)
    have hbehind : later.first.position ≤ placement.position :=
      (h later hlater placement hplacement later.move (hown later hlater)).2 (Nat.le_refl _)
    rcases List.mem_cons.1 hmove with rfl | hother
    · dsimp only [Growth.move]
      omega
    · exact h later hlater placement hplacement move hother

end Growth

variable {labels : Std.TreeSet Nat} {lines : Std.TreeMap Nat (List UInt16)} {size : Nat}
  {entries : List (Nat × Instruction)} {placements : List Placement} {moves : List (Nat × Nat)}
  {start stop : Nat}

namespace Layout

theorem Consecutive.position_of_pseudo (h : Consecutive start placements stop)
    (hpseudo : ∀ placement ∈ placements, placement.instruction.isPseudo = true) :
    start = stop ∧ ∀ placement ∈ placements, placement.position = start := by
  induction h with
  | nil => simp
  | @cons _ placement rest tail ih =>
      obtain ⟨hhead, hrest⟩ := List.forall_mem_cons.1 hpseudo
      rw [Placement.size_of_pseudo hhead] at ih
      obtain ⟨hstop, hpositions⟩ := ih hrest
      exact ⟨hstop, List.forall_mem_cons.2 ⟨rfl, hpositions⟩⟩

end Layout

theorem Grows.targets_iff {stream : List Instruction} (h : Grows labels lines size entries stream)
    {target : Label} : (∃ instruction ∈ stream, target ∈ instruction.targets) ↔
      ∃ entry ∈ entries, target ∈ entry.2.targets := by
  have hnone {events : List Instruction} (hpseudo : ∀ event ∈ events, event.isPseudo = true) :
      ¬ ∃ event ∈ events, target ∈ event.targets := by
    intro h
    rcases h with ⟨event, hevent, htarget⟩
    have hmark := hpseudo event hevent
    cases event with
    | label _ => cases htarget
    | line _ _ => cases htarget
    | _ => cases hmark
  induction h with
  | stop => simpa using hnone isPseudo_labelAt
  | @entry entry entries piece rest _ _ targets _ ih =>
      rw [List.exists_mem_cons_iff, ← targets]
      refine Iff.trans ?_ (or_congr_right ih)
      simp only [List.mem_append, or_and_right, exists_or, hnone isPseudo_marksAt, false_or]

theorem grows_iff {stream : List Instruction} : Grows labels lines size entries stream ↔ ∃ pieces,
    pieces.map (·.1) = entries ∧ stream = grown labels lines size pieces ∧
      ∀ piece ∈ pieces, piece.1.2.GrowsInto piece.2 := by
  constructor
  · intro h
    induction h with
    | stop => exact ⟨[], rfl, rfl, by simp⟩
    | @entry entry _ piece _ hne real targets _ ih =>
        obtain ⟨pieces, rfl, rfl, hpieces⟩ := ih
        exact ⟨(entry, piece) :: pieces, rfl, rfl,
          List.forall_mem_cons.2 ⟨⟨hne, real, targets⟩, hpieces⟩⟩
  · intro h
    rcases h with ⟨pieces, rfl, rfl, hpieces⟩
    induction pieces with
    | nil => exact .stop
    | cons piece rest ih =>
        obtain ⟨hhead, hrest⟩ := List.forall_mem_cons.1 hpieces
        exact .entry hhead.ne_nil hhead.real hhead.targets (ih hrest)

namespace Spreads

theorem map_fst (h : Spreads labels lines size start entries placements moves stop) :
    moves.map (·.1) = entries.map (·.1) ++ [size] := by
  induction h with
  | stop => rfl
  | entry _ _ _ _ _ _ ih => rw [List.map_cons, ih, List.map_cons, List.cons_append]

theorem le (h : Spreads labels lines size start entries placements moves stop) : start ≤ stop := by
  induction h with
  | stop => exact Nat.le_refl _
  | entry _ _ _ _ lt _ ih => omega

theorem lt (h : Spreads labels lines size start entries placements moves stop)
    (hne : entries ≠ []) : start < stop := by
  cases h with
  | stop => exact absurd rfl hne
  | entry _ _ _ _ lt tail => exact Nat.lt_of_lt_of_le lt tail.le

theorem bounds (h : Spreads labels lines size start entries placements moves stop) :
    ∀ move ∈ moves, start ≤ move.2 ∧ move.2 ≤ stop := by
  induction h with
  | stop => simp
  | entry _ _ _ _ lt tail ih =>
      have hle := tail.le
      refine List.forall_mem_cons.2 ⟨⟨Nat.le_refl _, by omega⟩, ?_⟩
      intro move hmove
      have hmove := ih move hmove
      omega

end Spreads

/-- A layout in which instructions have grown one by one. -/
structure GrowsBy (labels : Std.TreeSet Nat) (lines : Std.TreeMap Nat (List UInt16))
    (size start : Nat) (placements : List Placement) (growths : List Growth) (stop : Nat) :
    Prop where
  reals : placements.filter (!·.instruction.isPseudo) = growths.flatMap Growth.placements
  spreads : Spreads labels lines size start (growths.map Growth.entry) placements
    (growths.map Growth.move ++ [(size, stop)]) stop
  together : ∀ growth ∈ growths, growth.StaysTogether (growths.map Growth.move ++ [(size, stop)])

/-- A grown stream is laid out growth by growth. -/
theorem exists_growths {pieces : List ((Nat × Instruction) × List Instruction)}
    (hpieces : ∀ piece ∈ pieces, piece.1.2.GrowsInto piece.2)
    (hmap : placements.map (·.instruction) = grown labels lines size pieces)
    (hrun : Consecutive start placements stop) : ∃ growths : List Growth,
    growths.map Growth.piece = pieces ∧
      GrowsBy labels lines size start placements growths stop := by
  -- Labels and lines take no bytes, so those in front of a piece stand where its first
  -- instruction does.
  induction pieces generalizing start placements with
  | nil =>
      have hpseudo : ∀ placement ∈ placements, placement.instruction.isPseudo = true := by
        intro placement hplacement
        exact isPseudo_labelAt _ (hmap ▸ List.mem_map_of_mem hplacement)
      obtain ⟨rfl, hstanding⟩ := hrun.position_of_pseudo hpseudo
      refine ⟨[], rfl, ?_, .stop hmap hstanding, by simp⟩
      rw [List.flatMap_nil, List.filter_eq_nil_iff]
      intro placement hplacement
      simp [hpseudo placement hplacement]
  | cons piece pieces ih =>
      obtain ⟨hgrows, htail⟩ := List.forall_mem_cons.1 hpieces
      obtain ⟨front, rest, rfl, hfront, hrest⟩ := List.map_eq_append_iff.1 hmap
      obtain ⟨marks, becomes, rfl, hmarks, hbecomes⟩ := List.map_eq_append_iff.1 hfront
      obtain ⟨next, hfrontRun, hrestRun⟩ := consecutive_append_iff.1 hrun
      obtain ⟨middle, hmarksRun, hbecomesRun⟩ := consecutive_append_iff.1 hfrontRun
      have hpseudo : ∀ mark ∈ marks, mark.instruction.isPseudo = true := by
        intro mark hmark
        exact isPseudo_marksAt _ (hmarks ▸ List.mem_map_of_mem hmark)
      obtain ⟨rfl, hstanding⟩ := hmarksRun.position_of_pseudo hpseudo
      have hreal : ∀ placement ∈ becomes, placement.instruction.isPseudo = false := by
        intro placement hplacement
        exact hgrows.real _ (hbecomes ▸ List.mem_map_of_mem hplacement)
      obtain ⟨growths, rfl, hfilter, hspreads, htogether⟩ := ih htail hrest hrestRun
      cases hbecomesRun with
      | nil => exact absurd hbecomes.symm hgrows.ne_nil
      | @cons _ first others hothers =>
          have hpos : 0 < first.size := Instruction.size_pos (hreal first List.mem_cons_self) ..
          have hle := hothers.le
          have hinside : ∀ placement ∈ others, first.position < placement.position ∧
              placement.position < next := by
            intro placement hplacement
            have hwithin := hothers.mem hplacement
            have hsize : 0 < placement.size :=
              Instruction.size_pos (hreal placement (List.mem_cons_of_mem _ hplacement)) ..
            omega
          refine ⟨⟨piece.1, first, others⟩ :: growths, ?_, ?_,
            .entry hmarks hstanding hreal hinside (by omega) hspreads,
            Growth.staysTogether_cons ?_ (fun move hmove => (hspreads.bounds move hmove).1) ?_
              htogether⟩
          · rw [List.map_cons, Growth.piece, Growth.placements, hbecomes]
          · rw [List.filter_append, List.filter_append, hfilter, List.flatMap_cons,
              Growth.placements, List.filter_eq_nil_iff.2 (by simpa using hpseudo),
              List.filter_eq_self.2 (by simpa using hreal), List.nil_append]
          · change ∀ placement ∈ first :: others, first.position ≤ placement.position ∧
              placement.position < next
            refine List.forall_mem_cons.2 ⟨⟨Nat.le_refl _, by omega⟩, ?_⟩
            intro placement hplacement
            have hbetween := hinside placement hplacement
            omega
          · intro later hlater
            exact List.mem_append_left _ (List.mem_map_of_mem hlater)

theorem Grows.spreads {stream : List Instruction} (h : Grows labels lines size entries stream)
    (hmap : placements.map (·.instruction) = stream) (hrun : Consecutive start placements stop) :
    ∃ moves, Spreads labels lines size start entries placements moves stop := by
  obtain ⟨pieces, rfl, rfl, hpieces⟩ := grows_iff.1 h
  obtain ⟨growths, rfl, hgrows⟩ := exists_growths hpieces hmap hrun
  rw [List.map_map]
  exact ⟨_, hgrows.spreads⟩

namespace Spreads

/-- New starts keep the order of the old ones. -/
theorem rising (h : Spreads labels lines size start entries placements moves stop) :
    (moves.map (·.2)).Pairwise (· < ·) := by
  induction h with
  | stop => exact List.pairwise_singleton _ _
  | entry _ _ _ _ lt tail ih =>
      refine List.pairwise_cons.2 ⟨?_, ih⟩
      intro place hplace
      obtain ⟨move, hmove, rfl⟩ := List.mem_map.1 hplace
      exact Nat.lt_of_lt_of_le lt (tail.bounds move hmove).1

theorem lt_iff (h : Spreads labels lines size start entries placements moves stop)
    (hstarts : (entries.map (·.1) ++ [size]).Pairwise (· < ·)) {a b p q : Nat}
    (ha : (a, p) ∈ moves) (hb : (b, q) ∈ moves) : a < b ↔ p < q := by
  have hold : moves.Pairwise fun move move' => move.1 < move'.1 := by
    rwa [← List.pairwise_map, h.map_fst]
  have hnew : moves.Pairwise fun move move' => move.2 < move'.2 := List.pairwise_map.1 h.rising
  -- Along `moves` old and new starts rise together, so any two of them are in the same order.
  have hboth := hold.and hnew
  refine List.Pairwise.forall_of_forall_of_flip (R := fun move move' : Nat × Nat =>
    move.1 < move'.1 ↔ move.2 < move'.2) ?_ ?_ ?_ ha hb
  · intro move _
    simp
  · exact hboth.imp fun hlt => iff_of_true hlt.1 hlt.2
  · exact hboth.imp fun hlt => iff_of_false (Nat.lt_asymm hlt.1) (Nat.lt_asymm hlt.2)

theorem eq_iff (h : Spreads labels lines size start entries placements moves stop)
    (hstarts : (entries.map (·.1) ++ [size]).Pairwise (· < ·)) {a b p q : Nat}
    (ha : (a, p) ∈ moves) (hb : (b, q) ∈ moves) : a = b ↔ p = q := by
  have hlt := h.lt_iff hstarts ha hb
  have hgt := h.lt_iff hstarts hb ha
  omega

private theorem exists_mark_iff {marks : List Placement} {events : List Instruction}
    {event : Instruction} {place : Nat} (hmarked : marks.map (·.instruction) = events)
    (hstanding : ∀ mark ∈ marks, mark.position = start) :
    (∃ mark ∈ marks, mark.instruction = event ∧ mark.position = place) ↔
      event ∈ events ∧ start = place := by
  rw [← hmarked, List.mem_map]
  constructor
  · intro h
    rcases h with ⟨mark, hmark, hevent, hplace⟩
    exact ⟨⟨mark, hmark, hevent⟩, (hstanding mark hmark).symm.trans hplace⟩
  · intro h
    rcases h with ⟨⟨mark, hmark, hevent⟩, hplace⟩
    exact ⟨mark, hmark, hevent, (hstanding mark hmark).trans hplace⟩

/-- Where the marks of an old start stand. -/
private theorem exists_event_iff {becomes rest marks : List Placement} {events : List Instruction}
    {event : Instruction} {place : Nat} (hpseudo : event.isPseudo = true)
    (hmarked : marks.map (·.instruction) = events)
    (hstanding : ∀ mark ∈ marks, mark.position = start)
    (hreal : ∀ placement ∈ becomes, placement.instruction.isPseudo = false) :
    (∃ placement ∈ marks ++ becomes ++ rest, placement.instruction = event ∧
        placement.position = place) ↔
      (event ∈ events ∧ start = place) ∨
        ∃ placement ∈ rest, placement.instruction = event ∧ placement.position = place := by
  have hnone : ¬ ∃ placement ∈ becomes, placement.instruction = event ∧
      placement.position = place := by
    intro h
    rcases h with ⟨placement, hplacement, hevent, -⟩
    rw [← hevent, hreal placement hplacement] at hpseudo
    cases hpseudo
  rw [← exists_mark_iff hmarked hstanding]
  simp only [List.mem_append, or_and_right, exists_or, hnone, or_false]

/-- Where the label of an old start stands. -/
theorem label_iff (h : Spreads labels lines size start entries placements moves stop)
    {label place : Nat} :
    (∃ placement ∈ placements, placement.instruction = .label label ∧
      placement.position = place) ↔ labels.contains label = true ∧ (label, place) ∈ moves := by
  induction h with
  | stop marked standing =>
      rw [exists_mark_iff marked standing, label_mem_labelAt_iff, List.mem_singleton,
        Prod.mk.injEq, and_assoc, eq_comm (a := place)]
  | entry marked standing real _ _ _ ih =>
      rw [exists_event_iff rfl marked standing real, ih, label_mem_marksAt_iff, List.mem_cons,
        Prod.mk.injEq, and_or_left, and_assoc, eq_comm (a := place)]

/-- In a layout the label of an old start is placed at the new one. -/
theorem place_iff (h : Spreads labels lines size start entries placements moves stop)
    {pool left : Pool} {layout : Layout} (hlays : Lays {} pool placements layout left)
    {label place : Nat} : layout.labels[label]? = some place ↔
      labels.contains label = true ∧ (label, place) ∈ moves := by
  rw [← h.label_iff, hlays.labels_getElem?_iff]
  simp

theorem line_moves (h : Spreads labels lines size start entries placements moves stop)
    {number : UInt16} {offset : Nat} :
    ∀ placement ∈ placements, placement.instruction = .line number offset →
      number ∈ lines.getD offset [] ∧ (offset, placement.position) ∈ moves := by
  intro placement hplacement hline
  have hexists : ∃ other ∈ placements, other.instruction = .line number offset ∧
      other.position = placement.position := ⟨placement, hplacement, hline, rfl⟩
  clear hline hplacement
  induction h with
  | stop marked standing =>
      exact absurd ((exists_mark_iff marked standing).1 hexists).1 line_not_mem_labelAt
  | entry marked standing real _ _ _ ih =>
      rcases (exists_event_iff rfl marked standing real).1 hexists with hhead | hrest
      · obtain ⟨hnumber, rfl⟩ := line_mem_marksAt_iff.1 hhead.1
        exact ⟨hnumber, List.mem_cons.2 (.inl (by rw [hhead.2]))⟩
      · obtain ⟨hnumber, hmove⟩ := ih hrest
        exact ⟨hnumber, List.mem_cons_of_mem _ hmove⟩

theorem stop_mem (h : Spreads labels lines size start entries placements moves stop) :
    (size, stop) ∈ moves := by
  induction h with
  | stop => exact List.mem_singleton_self _
  | entry _ _ _ _ _ _ ih => exact List.mem_cons_of_mem _ ih

/-- A new start is that of an instruction, or the end. -/
theorem exists_real (h : Spreads labels lines size start entries placements moves stop) :
    ∀ move ∈ moves, move.2 = stop ∨ ∃ placement ∈ placements,
      placement.instruction.isPseudo = false ∧ placement.position = move.2 := by
  induction h with
  | stop => simp
  | @entry entry entries marks others rest first moves next stop marked standing real inside lt
      tail ih =>
      refine List.forall_mem_cons.2 ⟨.inr ⟨first, by simp, real first List.mem_cons_self, rfl⟩, ?_⟩
      intro move hmove
      rcases ih move hmove with hstop | ⟨placement, hplacement, hreal⟩
      · exact .inl hstop
      · exact .inr ⟨placement, List.mem_append_right _ hplacement, hreal⟩

/-! ## Reading a grown stream -/

variable {labels' : Std.TreeSet Nat} {lines' : Std.TreeMap Nat (List UInt16)}
  {places : Std.TreeMap Nat Nat}

private theorem resolved_marks {marks : List Placement} {offset place : Nat}
    (hmarked : marks.map (·.instruction) = marksAt labels lines offset)
    (hlabels : labels'.contains place = labels.contains offset)
    (hlines : lines'.getD place [] = lines.getD offset [])
    (hplace : labels.contains offset = true → newPlace places offset = place)
    (hlined : lines.getD offset [] ≠ [] → labels.contains offset = true) :
    marks.map (·.resolved places) = marksAt labels' lines' place := by
  have hpseudo : marks.map (·.resolved places) =
      (marks.map (·.instruction)).map (·.resolved (newPlace places) 0) := by
    rw [List.map_map]
    refine List.map_congr_left fun mark hmark => ?_
    have hmarkPseudo : mark.instruction.isPseudo = true :=
      isPseudo_marksAt _ (hmarked ▸ List.mem_map_of_mem hmark)
    exact Instruction.resolved_of_pseudo hmarkPseudo _ _ _
  rw [hpseudo, hmarked, marksAt, marksAt, List.map_append, List.map_map]
  unfold labelAt
  rw [hlabels, hlines]
  cases hcontains : labels.contains offset with
  | true =>
      rw [if_pos rfl, if_pos rfl, ← hplace hcontains]
      rfl
  | false =>
      have hnone : lines.getD offset [] = [] := by
        by_contra hsome
        rw [hlined hsome] at hcontains
        cases hcontains
      rw [hnone]
      rfl

/-- Where the new labels and lines are those of the moved starts, the new code is read as the grown
stream with everything moved. -/
theorem events (h : Spreads labels lines size start entries placements moves stop)
    (hlabels : ∀ move ∈ moves, labels'.contains move.2 = labels.contains move.1)
    (hlines : ∀ move ∈ moves, lines'.getD move.2 [] = lines.getD move.1 [])
    (hother : ∀ place, start ≤ place → (∀ move ∈ moves, move.2 ≠ place) →
      labels'.contains place = false ∧ lines'.getD place [] = [])
    (hplaces : ∀ move ∈ moves, labels.contains move.1 = true → newPlace places move.1 = move.2)
    (hlined : ∀ offset, lines.getD offset [] ≠ [] → labels.contains offset = true) :
    (reals places placements).flatMap (eventsAt labels' lines') ++ labelAt labels' stop =
      placements.map (·.resolved places) := by
  induction h with
  | @stop marks start marked standing =>
      have hpseudo : ∀ mark ∈ marks, mark.instruction.isPseudo = true := by
        intro mark hmark
        exact isPseudo_labelAt _ (marked ▸ List.mem_map_of_mem hmark)
      obtain ⟨hlabel, -⟩ := List.forall_mem_cons.1 hlabels
      obtain ⟨hplace, -⟩ := List.forall_mem_cons.1 hplaces
      rw [reals_of_pseudo hpseudo, List.flatMap_nil, List.nil_append, ← marksAt_empty]
      rw [← marksAt_empty] at marked
      exact (resolved_marks marked hlabel (by simp) hplace (by simp)).symm
  | @entry entry entries marks others rest first moves next stop marked standing real inside lt
      tail ih =>
      have hpseudo : ∀ mark ∈ marks, mark.instruction.isPseudo = true := by
        intro mark hmark
        exact isPseudo_marksAt _ (marked ▸ List.mem_map_of_mem hmark)
      obtain ⟨hlabel, hlabelRest⟩ := List.forall_mem_cons.1 hlabels
      obtain ⟨hline, hlineRest⟩ := List.forall_mem_cons.1 hlines
      obtain ⟨hplace, hplaceRest⟩ := List.forall_mem_cons.1 hplaces
      have hnext : ∀ move ∈ moves, next ≤ move.2 := fun move hmove => (tail.bounds move hmove).1
      have hrest := ih hlabelRest hlineRest (by
        intro place hle hnone
        refine hother place (by omega) (List.forall_mem_cons.2 ⟨?_, hnone⟩)
        dsimp only
        omega) hplaceRest
      -- Between the first instruction of a piece and the next start there are no marks.
      have hinside : (others.map fun placement =>
          (placement.position, placement.resolved places)).flatMap (eventsAt labels' lines') =
          others.map (·.resolved places) := by
        rw [List.flatMap_map, ← List.flatMap_pure_eq_map]
        refine List.flatMap_congr fun placement hplacement => ?_
        obtain ⟨hbehind, hbefore⟩ := inside placement hplacement
        have hfree := hother placement.position (by omega) (List.forall_mem_cons.2 ⟨by
          dsimp only
          omega, fun move hmove => by
            have hle := hnext move hmove
            omega⟩)
        simp [eventsAt, labelAt, hfree.1, hfree.2]
      rw [reals_append, reals_append, reals_of_pseudo hpseudo, reals_of_real real, List.nil_append,
        List.flatMap_append, List.append_assoc, hrest, List.map_cons, List.flatMap_cons, hinside,
        List.map_append, List.map_append, List.map_cons,
        resolved_marks marked hlabel hline hplace (hlined entry.1)]
      simp [eventsAt, marksAt]

end Spreads

end CallProbe
