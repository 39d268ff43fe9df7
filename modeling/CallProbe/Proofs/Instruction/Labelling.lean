import CallProbe.Proofs.Instruction.RoundTrip
import CallProbe.Proofs.MethodBody.Relaying

/-!
# The labels and lines of a stream

A stream that was read is the row of its instructions with marks in front of them. Its labels are
those that branches and tables refer to, each at the one place it names, and its lines are the line
marks of the body, sorted by offset. This determines the stream, and where a label has no place to
stand, there is none.
-/

namespace CallProbe

/-! ## Sorted lists -/

/-- A search through a rising list finds the least item. -/
theorem exists_least_find? {items : List Nat} (hrising : items.Pairwise (· < ·)) {p : Nat → Bool}
    {item : Nat} (hmem : item ∈ items) (hp : p item = true) :
    ∃ first, items.find? p = some first ∧ ∀ other ∈ items, p other = true → first ≤ other := by
  induction items with
  | nil => cases hmem
  | cons head rest ih =>
      obtain ⟨hhead, hrest⟩ := List.pairwise_cons.1 hrising
      by_cases hfound : p head = true
      · refine ⟨head, List.find?_cons_of_pos hfound, fun other hother _ => ?_⟩
        rcases List.mem_cons.1 hother with rfl | hother
        · exact Nat.le_refl _
        · exact Nat.le_of_lt (hhead other hother)
      · have hne {other : Nat} (hother : p other = true) : other ≠ head := by
          rintro rfl
          exact hfound hother
        obtain ⟨first, hfirst, hleast⟩ :=
          ih hrest ((List.mem_cons.1 hmem).resolve_left (hne hp))
        refine ⟨first, by rwa [List.find?_cons_of_neg hfound], fun other hother hpo => ?_⟩
        exact hleast other ((List.mem_cons.1 hother).resolve_left (hne hpo)) hpo

section SortedByKey

variable {α : Type} {key : α → Nat}

/-- Lists that are sorted by a key are equal if they agree on the items under every key. -/
theorem eq_of_filter_key_eq {items others : List α} (hitems : items.Pairwise (key · ≤ key ·))
    (hothers : others.Pairwise (key · ≤ key ·))
    (hfilter : ∀ k, items.filter (key · = k) = others.filter (key · = k)) : items = others := by
  induction items generalizing others with
  | nil =>
      cases others with
      | nil => rfl
      | cons other others => simpa using hfilter (key other)
  | cons item items ih =>
      cases others with
      | nil => simpa using hfilter (key item)
      | cons other others =>
          -- Each head occurs in the other list, so neither key is below the other.
          have hitem : item ∈ (other :: others).filter (key · = key item) := by
            rw [← hfilter]
            simp
          have hother : other ∈ (item :: items).filter (key · = key other) := by
            rw [hfilter]
            simp
          have hle : key other ≤ key item := by
            rcases List.mem_cons.1 (List.mem_of_mem_filter hitem) with rfl | hmem
            · exact Nat.le_refl _
            · exact (List.pairwise_cons.1 hothers).1 item hmem
          have hle' : key item ≤ key other := by
            rcases List.mem_cons.1 (List.mem_of_mem_filter hother) with rfl | hmem
            · exact Nat.le_refl _
            · exact (List.pairwise_cons.1 hitems).1 other hmem
          have hkey : key other = key item := Nat.le_antisymm hle hle'
          have hhead := hfilter (key item)
          simp only [List.filter_cons, hkey, decide_true, if_true] at hhead
          obtain ⟨rfl, -⟩ := List.cons.inj hhead
          refine congrArg _ (ih (List.pairwise_cons.1 hitems).2 (List.pairwise_cons.1 hothers).2 ?_)
          intro k
          have hk := hfilter k
          by_cases heq : key item = k <;> simpa [List.filter_cons, heq] using hk

theorem pairwise_mergeSort_key (items : List α) :
    (items.mergeSort (key · ≤ key ·)).Pairwise (key · ≤ key ·) := by
  have hsorted := @List.pairwise_mergeSort α (key · ≤ key ·)
    (fun a b c => by simpa using Nat.le_trans) (fun a b => by simpa using Nat.le_total ..) items
  simpa using hsorted

/-- Items with the same key keep their order when they are sorted. -/
theorem filter_mergeSort_key (items : List α) (k : Nat) :
    (items.mergeSort (key · ≤ key ·)).filter (key · = k) = items.filter (key · = k) := by
  have hsame : (items.filter (key · = k)).Pairwise fun a b => decide (key a ≤ key b) = true := by
    refine List.pairwise_of_forall_mem_list fun a ha b hb => ?_
    have hka := of_decide_eq_true (List.mem_filter.1 ha).2
    have hkb := of_decide_eq_true (List.mem_filter.1 hb).2
    exact decide_eq_true (Nat.le_of_eq (hka.trans hkb.symm))
  have hsub := List.sublist_mergeSort
    (fun a b c => by simpa using Nat.le_trans) (fun a b => by simpa using Nat.le_total ..)
    hsame List.filter_sublist
  have hkept := hsub.filter (key · = k)
  simp only [List.filter_filter, Bool.and_self] at hkept
  exact (hkept.eq_of_length ((List.mergeSort_perm ..).filter _).length_eq.symm).symm

private theorem filter_filter_key (items : List α) (k other : Nat) :
    (items.filter (key · = other)).filter (key · = k) =
      if other = k then items.filter (key · = k) else [] := by
  by_cases heq : other = k
  · subst heq
    simp [List.filter_filter]
  · rw [if_neg heq, List.filter_eq_nil_iff]
    intro item hitem
    have hkey := of_decide_eq_true (List.mem_filter.1 hitem).2
    simpa [hkey] using heq

theorem filter_flatMap_key {keys : List Nat} (hkeys : keys.Nodup) (items : List α) (k : Nat) :
    (keys.flatMap fun k => items.filter (key · = k)).filter (key · = k) =
      if k ∈ keys then items.filter (key · = k) else [] := by
  induction keys with
  | nil => rfl
  | cons first keys ih =>
      obtain ⟨hfresh, hkeys⟩ := List.nodup_cons.1 hkeys
      rw [List.flatMap_cons, List.filter_append, filter_filter_key, ih hkeys]
      by_cases heq : first = k
      · subst heq
        simp [hfresh]
      · simp [heq, Ne.symm heq]

/-- To go through all keys in order, and through the items under each, is to sort the items. -/
theorem flatMap_filter_key_eq_mergeSort {keys : List Nat} (hkeys : keys.Pairwise (· < ·))
    {items : List α} (hall : ∀ item ∈ items, key item ∈ keys) :
    (keys.flatMap fun k => items.filter (key · = k)) = items.mergeSort (key · ≤ key ·) := by
  have hkey {item : α} {k : Nat} (h : item ∈ items.filter (key · = k)) : key item = k :=
    of_decide_eq_true (List.mem_filter.1 h).2
  refine eq_of_filter_key_eq ?_ (pairwise_mergeSort_key items) ?_
  · refine List.pairwise_flatMap.2 ⟨fun k _ => ?_, hkeys.imp fun hlt a ha b hb => ?_⟩
    · refine List.pairwise_of_forall_mem_list fun a ha b hb => ?_
      exact Nat.le_of_eq ((hkey ha).trans (hkey hb).symm)
    · rw [hkey ha, hkey hb]
      exact Nat.le_of_lt hlt
  · intro k
    rw [filter_mergeSort_key, filter_flatMap_key (hkeys.imp Nat.ne_of_lt)]
    by_cases hmem : k ∈ keys
    · rw [if_pos hmem]
    · rw [if_neg hmem, eq_comm, List.filter_eq_nil_iff]
      intro item hitem heq
      exact hmem (of_decide_eq_true heq ▸ hall item hitem)

end SortedByKey

namespace Instruction

def isLine : Instruction → Bool
  | line _ _ => true
  | _ => false

theorem isLine_eq_false {instruction : Instruction} (h : instruction.isPseudo = false) :
    instruction.isLine = false := by
  cases instruction with
  | line _ _ => cases h
  | _ => rfl

end Instruction

/-- The event of a line mark. -/
def LineMark.event (mark : LineMark) : Instruction :=
  .line mark.line mark.start.toNat

/-- The labels that a stream places, in order. -/
def placedLabels (stream : List Instruction) : List Label :=
  stream.filterMap Instruction.marked?

namespace MethodBody

open Instruction

variable {pool : Pool} {body : MethodBody} {entries : List (Nat × Instruction)}
  {placed : List Label}

/-! ## Rows of marked instructions -/

/-- The label of an offset, if it is among those that are placed. -/
def labelIfPlaced (placed : List Label) (offset : Nat) : List Instruction :=
  if offset ∈ placed then [.label offset] else []

/-- An instruction behind the lines that start at it, and those behind its label. -/
def markedEntry (body : MethodBody) (placed : List Label) (entry : Nat × Instruction) :
    List Instruction :=
  labelIfPlaced placed entry.1
    ++ (body.lineMarks.filter (·.start.toNat = entry.1)).map LineMark.event ++ [entry.2]

/-- All instructions with their marks in front of them, and the label of the end. -/
def markedRow (body : MethodBody) (placed : List Label) (entries : List (Nat × Instruction)) :
    List Instruction :=
  entries.flatMap (body.markedEntry placed) ++ labelIfPlaced placed body.code.length

theorem labelAt_eq_labelIfPlaced
    (h : ∀ label, label ∈ placed ↔ (body.labels entries).contains label = true) (offset : Nat) :
    labelAt (body.labels entries) offset = labelIfPlaced placed offset := by
  unfold labelAt labelIfPlaced
  simp only [h]

theorem lines_eq_map_event (body : MethodBody) (offset : Nat) :
    (body.linesByOffset.getD offset []).map (.line · offset) =
      (body.lineMarks.filter (·.start.toNat = offset)).map LineMark.event := by
  rw [getD_linesByOffset, List.map_map]
  refine List.map_congr_left fun mark hmark => ?_
  have hstart : mark.start.toNat = offset := of_decide_eq_true (List.mem_filter.1 hmark).2
  simp only [Function.comp_apply, LineMark.event, hstart]

theorem events_eq_markedRow
    (h : ∀ label, label ∈ placed ↔ (body.labels entries).contains label = true) :
    body.events entries = body.markedRow placed entries := by
  unfold events markedRow
  rw [labelAt_eq_labelIfPlaced h]
  congr 1
  refine List.flatMap_congr fun entry _ => ?_
  rw [eventsAt, labelAt_eq_labelIfPlaced h, lines_eq_map_event, markedEntry]

theorem eq_label_of_mem_labelIfPlaced {offset : Nat} {event : Instruction}
    (h : event ∈ labelIfPlaced placed offset) : event = .label offset := by
  unfold labelIfPlaced at h
  split at h
  · exact List.mem_singleton.1 h
  · cases h

/-- What stands in a row is a label at a start or at the end, a line, or an instruction. -/
theorem mem_markedRow {event : Instruction} (h : event ∈ body.markedRow placed entries) :
    (∃ offset ∈ entries.map (·.1) ++ [body.code.length], event = .label offset) ∨
      (∃ mark ∈ body.lineMarks, event = mark.event) ∨ ∃ entry ∈ entries, event = entry.2 := by
  rcases List.mem_append.1 h with hrow | hend
  · obtain ⟨entry, hentry, hevent⟩ := List.mem_flatMap.1 hrow
    rcases List.mem_append.1 hevent with hfront | hself
    · rcases List.mem_append.1 hfront with hlabel | hline
      · refine .inl ⟨entry.1, ?_, eq_label_of_mem_labelIfPlaced hlabel⟩
        exact List.mem_append_left _ (List.mem_map_of_mem hentry)
      · obtain ⟨mark, hmark, rfl⟩ := List.mem_map.1 hline
        exact .inr (.inl ⟨mark, List.mem_of_mem_filter hmark, rfl⟩)
    · exact .inr (.inr ⟨entry, hentry, List.mem_singleton.1 hself⟩)
  · refine .inl ⟨body.code.length, ?_, eq_label_of_mem_labelIfPlaced hend⟩
    exact List.mem_append_right _ (List.mem_singleton_self _)

theorem instruction_mem_markedRow {entry : Nat × Instruction} (h : entry ∈ entries) :
    entry.2 ∈ body.markedRow placed entries := by
  refine List.mem_append_left _ (List.mem_flatMap.2 ⟨entry, h, ?_⟩)
  exact List.mem_append_right _ (List.mem_singleton_self _)

/-- The marks of a row lead nowhere. -/
theorem target_mem_markedRow_iff {target : Label} :
    (∃ event ∈ body.markedRow placed entries, target ∈ event.targets) ↔
      ∃ entry ∈ entries, target ∈ entry.2.targets := by
  constructor
  · intro h
    rcases h with ⟨event, hevent, htarget⟩
    rcases mem_markedRow hevent with ⟨offset, -, rfl⟩ | ⟨mark, -, rfl⟩ | ⟨entry, hentry, rfl⟩
    · cases htarget
    · cases htarget
    · exact ⟨entry, hentry, htarget⟩
  · intro h
    rcases h with ⟨entry, hentry, htarget⟩
    exact ⟨entry.2, instruction_mem_markedRow hentry, htarget⟩

/-- The labels of a row stand at its starts and at its end. -/
theorem mem_starts_of_placed (hreal : ∀ entry ∈ entries, entry.2.isPseudo = false) {label : Label}
    (h : label ∈ placedLabels (body.markedRow placed entries)) :
    label ∈ entries.map (·.1) ++ [body.code.length] := by
  rcases mem_markedRow (mem_filterMap_marked?_iff.1 h) with
    ⟨offset, hoffset, heq⟩ | ⟨mark, -, heq⟩ | ⟨entry, hentry, heq⟩
  · rwa [Instruction.label.inj heq]
  · cases heq
  · have hpseudo := hreal entry hentry
    rw [← heq] at hpseudo
    cases hpseudo

theorem filter_isLine_markedRow (hreal : ∀ entry ∈ entries, entry.2.isPseudo = false) :
    (body.markedRow placed entries).filter isLine =
      ((entries.map (·.1)).flatMap fun offset =>
        body.lineMarks.filter (·.start.toNat = offset)).map LineMark.event := by
  have hlabel (offset : Nat) : (labelIfPlaced placed offset).filter isLine = [] := by
    rw [List.filter_eq_nil_iff]
    intro event hevent
    simp [eq_label_of_mem_labelIfPlaced hevent, isLine]
  have hlines (marks : List LineMark) :
      (marks.map LineMark.event).filter isLine = marks.map LineMark.event := by
    rw [List.filter_eq_self]
    intro event hevent
    obtain ⟨mark, -, rfl⟩ := List.mem_map.1 hevent
    rfl
  unfold markedRow
  rw [List.filter_append, hlabel, List.append_nil]
  induction entries with
  | nil => rfl
  | cons entry rest ih =>
      obtain ⟨hentry, hrest⟩ := List.forall_mem_cons.1 hreal
      rw [List.flatMap_cons, List.filter_append, ih hrest, List.map_cons, List.flatMap_cons,
        List.map_append]
      congr 1
      simp [markedEntry, hlabel, hlines, isLine_eq_false hentry]

/-- The lines of a row whose marks all stand at boundaries, in the order of their offsets. -/
theorem flatMap_lineMarks (htiles : Tiles pool body.code.length 0 entries body.code)
    (hbound : body.Bounded entries) :
    ((entries.map (·.1)).flatMap fun offset => body.lineMarks.filter (·.start.toNat = offset)) =
      (body.lineMarks.filter (·.start.toNat < body.code.length)).mergeSort
        (·.start.toNat ≤ ·.start.toNat) := by
  obtain ⟨hrising, -, hlt⟩ := List.pairwise_append.1 htiles.starts_lt_length
  -- A mark is a reference itself, so that below the end it can only stand at a start.
  have hinside : ∀ mark ∈ body.lineMarks.filter (·.start.toNat < body.code.length),
      mark.start.toNat ∈ entries.map (·.1) := by
    intro mark hmark
    obtain ⟨hmem, hstart⟩ := List.mem_filter.1 hmark
    have hlabel : (body.labels entries).contains mark.start.toNat = true :=
      labels_contains_iff.2 (.inr (start_mem_offsets hmem))
    rcases List.mem_append.1 (hbound.mem_starts hlabel) with hentry | hend
    · exact hentry
    · rw [List.mem_singleton.1 hend] at hstart
      exact absurd (of_decide_eq_true hstart) (Nat.lt_irrefl _)
  rw [← flatMap_filter_key_eq_mergeSort hrising hinside]
  refine List.flatMap_congr fun offset hoffset => ?_
  rw [List.filter_filter]
  refine List.filter_congr fun mark _ => ?_
  have hoffset : offset < body.code.length := hlt offset hoffset _ (List.mem_singleton_self _)
  by_cases hstart : mark.start.toNat = offset
  · simp [hstart, hoffset]
  · simp [hstart]

/-! ## Labelled streams -/

/-- A stream of the instructions of a body, labelled with what the body refers to. -/
structure Labelled (pool : Pool) (body : MethodBody) (entries : List (Nat × Instruction))
    (stream : List Instruction) : Prop where
  /-- The instructions take up the code array without gaps. -/
  tiles : Tiles pool body.code.length 0 entries body.code
  /-- The offset of every place that can have a label is a 32-bit number. -/
  start_lt : ∀ start ∈ entries.map (·.1) ++ [body.code.length], start < UInt32.size
  /-- Labels and lines stand in front of the instructions that start at their offsets. -/
  row : stream = body.markedRow (placedLabels stream) entries
  rising : (placedLabels stream).Pairwise (· < ·)
  placed_iff : ∀ label, label ∈ placedLabels stream ↔
    (∃ event ∈ stream, label ∈ event.targets) ∨ label ∈ body.referencedOffsets
  /-- A branch never leads to the end. -/
  target_lt : ∀ event ∈ stream, ∀ target ∈ event.targets, target < body.code.length
  lines : stream.filter isLine =
    ((body.lineMarks.filter (·.start.toNat < body.code.length)).mergeSort
      (·.start.toNat ≤ ·.start.toNat)).map LineMark.event

theorem mem_placedLabels_events (hreal : ∀ entry ∈ entries, entry.2.isPseudo = false)
    (hbound : body.Bounded entries) (label : Label) :
    label ∈ placedLabels (body.events entries) ↔ (body.labels entries).contains label = true := by
  unfold placedLabels
  rw [marked_events hreal, List.mem_filter]
  exact and_iff_right_of_imp hbound.mem_starts

theorem labelled_events (hlength : body.code.length < UInt32.size)
    (htiles : Tiles pool body.code.length 0 entries body.code) (hbound : body.Bounded entries) :
    body.Labelled pool entries (body.events entries) := by
  have hplaced := mem_placedLabels_events htiles.not_pseudo hbound
  have hrow : body.events entries =
      body.markedRow (placedLabels (body.events entries)) entries := events_eq_markedRow hplaced
  have htargets (target : Label) : (∃ event ∈ body.events entries, target ∈ event.targets) ↔
      ∃ entry ∈ entries, target ∈ entry.2.targets := by
    rw [hrow]
    exact target_mem_markedRow_iff
  constructor
  case tiles => exact htiles
  case start_lt => exact fun start hstart => Nat.lt_of_le_of_lt (htiles.le_length hstart) hlength
  case row => exact hrow
  case rising =>
    unfold placedLabels
    rw [marked_events htiles.not_pseudo]
    exact htiles.starts_lt_length.filter _
  case placed_iff =>
    intro label
    rw [hplaced, labels_contains_iff, htargets, mem_referencedOffsets_iff]
  case target_lt =>
    intro event hevent target htarget
    obtain ⟨entry, hentry, hmention⟩ := (htargets target).1 ⟨event, hevent, htarget⟩
    exact (htiles.mem hentry).1.inRange.target_lt target hmention
  case lines =>
    rw [hrow, filter_isLine_markedRow htiles.not_pseudo, flatMap_lineMarks htiles hbound]

namespace Labelled

variable {stream : List Instruction} (h : body.Labelled pool entries stream)

include h

theorem placed_iff_contains (label : Label) :
    label ∈ placedLabels stream ↔ (body.labels entries).contains label = true := by
  rw [h.placed_iff, labels_contains_iff, mem_referencedOffsets_iff, h.row,
    target_mem_markedRow_iff]

theorem bounded : body.Bounded entries := by
  intro label hlabel
  have hplaced := (h.placed_iff_contains label).2 hlabel
  rw [h.row] at hplaced
  have hstart := mem_starts_of_placed h.tiles.not_pseudo hplaced
  rw [List.mem_append, List.mem_singleton, List.mem_map] at hstart
  exact boundaries_contains_iff.2 hstart.symm

theorem eq_events : stream = body.events entries :=
  h.row.trans (events_eq_markedRow h.placed_iff_contains).symm

end Labelled

theorem stream_eq_ok_iff_labelled (hlength : body.code.length < UInt32.size)
    {stream : List Instruction} :
    body.stream pool = .ok stream ↔ ∃ entries, body.Labelled pool entries stream := by
  rw [stream_eq_ok_iff]
  constructor
  · intro h
    rcases h with ⟨entries, htiles, hbound, rfl⟩
    exact ⟨entries, labelled_events hlength htiles hbound⟩
  · intro h
    rcases h with ⟨entries, h⟩
    exact ⟨entries, h.tiles, h.bounded, h.eq_events⟩

/-! ## Strays -/

/-- An offset that something refers to, where no instruction starts and the code does not end. -/
def Stray (body : MethodBody) (entries : List (Nat × Instruction)) (offset : Nat) : Prop :=
  ((∃ entry ∈ entries, offset ∈ entry.2.targets) ∨ offset ∈ body.referencedOffsets) ∧
    offset ≠ body.code.length ∧ ∀ entry ∈ entries, entry.1 ≠ offset

theorem stray_iff {offset : Nat} : body.Stray entries offset ↔
    offset ∈ (body.labels entries).toList ∧
      (!(body.boundaries entries).contains offset) = true := by
  have hlabel : offset ∈ (body.labels entries).toList ↔
      (body.labels entries).contains offset = true := by simp
  have hboundary : (!(body.boundaries entries).contains offset) = true ↔
      ¬(offset = body.code.length ∨ ∃ entry ∈ entries, entry.1 = offset) := by
    rw [← boundaries_contains_iff, Bool.not_eq_true', Bool.not_eq_true]
  rw [hlabel, hboundary, labels_contains_iff, Stray, mem_referencedOffsets_iff]
  simp only [not_or, not_exists, not_and, ne_eq]

/-- A body that refers to strays is rejected for the first of them. -/
theorem stream_of_stray (hread : readAll pool body.code = .ok entries) {offset : Nat}
    (hstray : body.Stray entries offset) :
    ∃ first, body.Stray entries first ∧ (∀ other, body.Stray entries other → first ≤ other) ∧
      body.stream pool = .error (.malformed (.notBoundary first)) := by
  have hrising : (body.labels entries).toList.Pairwise (· < ·) :=
    (Std.TreeSet.ordered_toList).imp Nat.compare_eq_lt.1
  obtain ⟨hlabel, hnot⟩ := stray_iff.1 hstray
  obtain ⟨first, hfind, hleast⟩ := exists_least_find?
    (p := fun label => !(body.boundaries entries).contains label) hrising hlabel hnot
  have hfirst := List.find?_some hfind
  refine ⟨first, ?_, ?_, ?_⟩
  · exact stray_iff.2 ⟨List.mem_of_find?_eq_some hfind, hfirst⟩
  · intro other hother
    obtain ⟨hother, hnot⟩ := stray_iff.1 hother
    exact hleast other hother hnot
  · rw [stream_eq_checkedStream]
    unfold checkedStream
    rw [hread]
    simp only [bind, Except.bind, hfind]
    rfl

/-- A stream is read exactly if the instructions of the code can be labelled with all that branches,
handlers and tables refer to, and it is that labelled row. If a reference has no place to stand, the
body is rejected, and the fault names the least such reference. Offsets have 32 bits, so the code
array is shorter than 4 GiB. -/
theorem stream_labelled_exactly (body : MethodBody) (pool : Pool)
    (hlength : body.code.length < UInt32.size) :
    (∀ stream, body.stream pool = .ok stream ↔ ∃ entries, body.Labelled pool entries stream) ∧
      ∀ entries, readAll pool body.code = .ok entries →
        ∀ offset, body.Stray entries offset →
          ∃ first, body.Stray entries first ∧
            (∀ other, body.Stray entries other → first ≤ other) ∧
            body.stream pool = .error (.malformed (.notBoundary first)) :=
  ⟨fun _ => stream_eq_ok_iff_labelled hlength, fun _ hread _ hstray => stream_of_stray hread hstray⟩

/-- A jump to the next instruction, protected up to the end, with two lines where it leads. -/
def protectedJump : MethodBody where
  maxStack := 0
  maxLocals := 0
  code := [0xA7, 0, 3, 0xB1]
  handlers := [{ start := 0, stop := 4, target := 3, catchType := 0 }]
  attributes := [.lineNumbers 7 [⟨3, 21⟩, ⟨0, 20⟩, ⟨3, 22⟩, ⟨4, 23⟩]]

/-- The same code with a handler that refers to two offsets inside the jump. -/
def strayHandler : MethodBody :=
  { protectedJump with handlers := [{ start := 2, stop := 4, target := 1, catchType := 0 }] }

theorem protectedJump_labelled :
    (protectedJump.code.length < UInt32.size ∧
      protectedJump.stream Pool.new =
        .ok [.label 0, .line 20 0, .jump 0xA7 3, .label 3, .line 21 3, .line 22 3, .simple 0xB1,
          .label 4] ∧
      ∃ entries, protectedJump.Labelled Pool.new entries
        [.label 0, .line 20 0, .jump 0xA7 3, .label 3, .line 21 3, .line 22 3, .simple 0xB1,
          .label 4]) ∧
    strayHandler.code.length < UInt32.size ∧
      readAll Pool.new strayHandler.code = .ok [(0, .jump 0xA7 3), (3, .simple 0xB1)] ∧
      strayHandler.Stray [(0, .jump 0xA7 3), (3, .simple 0xB1)] 2 ∧
      ∃ first, strayHandler.Stray [(0, .jump 0xA7 3), (3, .simple 0xB1)] first ∧
        (∀ other, strayHandler.Stray [(0, .jump 0xA7 3), (3, .simple 0xB1)] other →
          first ≤ other) ∧
        strayHandler.stream Pool.new = .error (.malformed (.notBoundary first)) := by
  have hstream : protectedJump.stream Pool.new =
      .ok [.label 0, .line 20 0, .jump 0xA7 3, .label 3, .line 21 3, .line 22 3, .simple 0xB1,
        .label 4] := rfl
  have hread : readAll Pool.new strayHandler.code =
      .ok [(0, .jump 0xA7 3), (3, .simple 0xB1)] := rfl
  have hstray : strayHandler.Stray [(0, .jump 0xA7 3), (3, .simple 0xB1)] 2 := by
    refine ⟨.inr (mem_referencedOffsets_iff.2 ?_), ?_, ?_⟩
    · decide
    · decide
    · decide
  have hlength : protectedJump.code.length < UInt32.size := by decide
  obtain ⟨hread_iff, -⟩ := stream_labelled_exactly protectedJump Pool.new hlength
  obtain ⟨-, hrejects⟩ := stream_labelled_exactly strayHandler Pool.new hlength
  exact ⟨⟨hlength, hstream, (hread_iff _).1 hstream⟩, hlength, hread, hstray,
    hrejects _ hread 2 hstray⟩

end MethodBody

end CallProbe
