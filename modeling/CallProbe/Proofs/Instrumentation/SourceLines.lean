import CallProbe.Proofs.CallSite.Templates
import CallProbe.Proofs.Instrumentation.Simulation

/-!
# Templates name source positions

The walk knows the line that started last and counts from there. The line tables of a
body may be in any order, split up, and mark an offset more than once. Whatever they look
like, the walk gives a call the line that its offset belongs to.
-/

namespace CallProbe

open MethodBody

/-! ## The line of an offset -/

/-- Of the marks that start at or before an offset, those that start last. -/
def latestMarks (marks : List LineMark) (offset : Nat) : List LineMark :=
  marks.filter fun mark => mark.start.toNat ≤ offset ∧
    ∀ other ∈ marks, other.start.toNat ≤ offset → other.start.toNat ≤ mark.start.toNat

/-- The line an offset belongs to, and where this line starts. Among the latest marks the last one
in the tables counts; both are zero if no mark starts at or before the offset. -/
def MethodBody.sourceAt (body : MethodBody) (offset : Nat) : Nat × Nat :=
  match (latestMarks body.lineMarks offset).getLast? with
  | some mark => (mark.line.toNat, mark.start.toNat)
  | none => (0, 0)

variable {marks : List LineMark} {offset : Nat} {body : MethodBody}

theorem latestMarks_of_started {mark : LineMark} (hmark : mark ∈ marks)
    (hstart : mark.start.toNat = offset) :
    latestMarks marks offset = marks.filter (·.start.toNat = offset) := by
  apply List.filter_congr
  intro other _
  rw [decide_eq_decide]
  constructor
  · intro h
    exact Nat.le_antisymm h.1 (hstart ▸ h.2 mark hmark (Nat.le_of_eq hstart))
  · intro h
    exact ⟨Nat.le_of_eq h, fun _ _ hle => h ▸ hle⟩

theorem latestMarks_of_quiet {earlier : Nat} (hle : earlier ≤ offset)
    (h : ∀ mark ∈ marks, mark.start.toNat ≤ offset → mark.start.toNat ≤ earlier) :
    latestMarks marks offset = latestMarks marks earlier := by
  have hiff (mark : LineMark) (hmark : mark ∈ marks) :
      mark.start.toNat ≤ offset ↔ mark.start.toNat ≤ earlier :=
    ⟨h mark hmark, fun hearlier => Nat.le_trans hearlier hle⟩
  apply List.filter_congr
  intro mark hmark
  rw [decide_eq_decide, hiff mark hmark]
  refine and_congr_right fun _ => forall₂_congr fun other hother => ?_
  rw [hiff other hother]

theorem MethodBody.sourceAt_le : (body.sourceAt offset).2 ≤ offset := by
  unfold sourceAt
  cases hlast : (latestMarks body.lineMarks offset).getLast? with
  | none => exact Nat.zero_le offset
  | some mark =>
      have hmem := List.mem_of_getLast? hlast
      exact (of_decide_eq_true (List.mem_filter.1 hmem).2).1

namespace Weaver

variable {weaver : Weaver} {context : MethodContext} {labels : Std.TreeSet Nat}
  {entries : List (Nat × Instruction)}

/-- How many calls are replaced from the offset `start` up to `stop`. -/
def replacedWithin (weaver : Weaver) (context : MethodContext)
    (entries : List (Nat × Instruction)) (start stop : Nat) : Nat :=
  entries.countP fun entry =>
    start ≤ entry.1 ∧ entry.1 < stop ∧ (weaver.chosen? context entry.2).isSome

/-- The template that the source gives to a call at an offset. -/
def sourceTemplate (weaver : Weaver) (context : MethodContext) (body : MethodBody)
    (entries : List (Nat × Instruction)) (offset : Nat) : String :=
  Objective.template context.className (body.sourceAt offset).1
    (weaver.replacedWithin context entries (body.sourceAt offset).2 offset)

/-- Behind `before`, the walk has the line that an offset belongs to, and has numbered the calls
among `passed` that are replaced since this line has started. -/
structure AtSource (weaver : Weaver) (context : MethodContext) (body : MethodBody)
    (passed : List (Nat × Instruction)) (offset : Nat) (before : List Instruction) : Prop where
  line : currentLine before = (body.sourceAt offset).1
  ordinal : weaver.ordinal context before =
    weaver.replacedWithin context passed (body.sourceAt offset).2 offset

/-! ## Counting replaced calls -/

theorem replacedWithin_self : weaver.replacedWithin context entries offset offset = 0 := by
  rw [replacedWithin, List.countP_eq_zero]
  intro entry _ hentry
  have hwithin := of_decide_eq_true hentry
  omega

/-- A further instruction counts if it is a replaced call behind `start`. -/
theorem replacedWithin_concat {entry : Nat × Instruction} {start : Nat}
    (hbefore : ∀ other ∈ entries, other.1 < entry.1) (hlt : entry.1 < offset)
    (hstart : start ≤ entry.1) :
    weaver.replacedWithin context (entries ++ [entry]) start offset =
      weaver.replacedWithin context entries start entry.1 +
        [entry.2].countP (weaver.chosen? context · |>.isSome) := by
  have hsame : weaver.replacedWithin context entries start offset =
      weaver.replacedWithin context entries start entry.1 := by
    apply List.countP_congr
    intro other hother
    have hother' := hbefore other hother
    simp [hother', Nat.lt_trans hother' hlt]
  rw [replacedWithin, List.countP_append, ← replacedWithin, hsame]
  simp [hlt, hstart]

/-- Instructions from an offset on are not in front of it. -/
theorem replacedWithin_append {back : List (Nat × Instruction)} {start : Nat}
    (h : ∀ entry ∈ back, offset ≤ entry.1) :
    weaver.replacedWithin context (entries ++ back) start offset =
      weaver.replacedWithin context entries start offset := by
  have hnone : weaver.replacedWithin context back start offset = 0 := by
    rw [replacedWithin, List.countP_eq_zero]
    intro entry hentry hcounted
    have hwithin := of_decide_eq_true hcounted
    have hle := h entry hentry
    omega
  rw [replacedWithin, List.countP_append, ← replacedWithin, ← replacedWithin, hnone, Nat.add_zero]

/-! ## The walk at an offset -/

theorem startedLine?_labelAt : ∀ event ∈ labelAt labels offset, event.startedLine? = none := by
  intro event hevent
  rw [(mem_labelAt_iff.1 hevent).2]
  rfl

theorem chosen?_labelAt :
    (labelAt labels offset).countP (weaver.chosen? context · |>.isSome) = 0 := by
  rw [List.countP_eq_zero]
  intro event hevent
  rw [(mem_labelAt_iff.1 hevent).2]
  exact Bool.false_ne_true

theorem marksAt_of_unmarked (h : ∀ mark ∈ body.lineMarks, mark.start.toNat ≠ offset) :
    marksAt labels body.linesByOffset offset = labelAt labels offset := by
  have hnone : body.lineMarks.filter (·.start.toNat = offset) = [] :=
    List.filter_eq_nil_iff.2 fun mark hmark => by simpa using h mark hmark
  rw [marksAt, getD_linesByOffset, hnone, List.map_nil, List.map_nil, List.append_nil]

theorem sourceAt_of_started {mark : LineMark} (hmark : mark ∈ body.lineMarks)
    (hstart : mark.start.toNat = offset) : ∃ front last,
      body.lineMarks.filter (·.start.toNat = offset) = front ++ [last] ∧
        body.sourceAt offset = (last.line.toNat, offset) := by
  have hmem : mark ∈ body.lineMarks.filter (·.start.toNat = offset) :=
    List.mem_filter.2 ⟨hmark, decide_eq_true hstart⟩
  rcases List.eq_nil_or_concat' (body.lineMarks.filter (·.start.toNat = offset)) with hnil | hlast
  · rw [hnil] at hmem
    cases hmem
  obtain ⟨front, last, hsplit⟩ := hlast
  have hoffset : last.start.toNat = offset := by
    have hlast : last ∈ body.lineMarks.filter (·.start.toNat = offset) := by simp [hsplit]
    exact of_decide_eq_true (List.mem_filter.1 hlast).2
  refine ⟨front, last, hsplit, ?_⟩
  rw [sourceAt, latestMarks_of_started hmark hstart, hsplit, List.getLast?_concat]
  exact congrArg _ hoffset

/-- Where lines start, the last one counts, and numbers start from zero. -/
theorem atSource_of_started (passed : List (Nat × Instruction)) (before : List Instruction)
    {mark : LineMark} (hmark : mark ∈ body.lineMarks) (hstart : mark.start.toNat = offset) :
    weaver.AtSource context body passed offset
      (before ++ marksAt labels body.linesByOffset offset) := by
  obtain ⟨front, last, hlast, hsource⟩ := sourceAt_of_started hmark hstart
  have hmarks : marksAt labels body.linesByOffset offset =
      (labelAt labels offset ++ (front.map (·.line)).map (.line · offset)) ++
        [.line last.line offset] := by
    rw [marksAt, getD_linesByOffset, hlast, List.map_append, List.map_append, ← List.append_assoc]
    rfl
  rw [hmarks, ← List.append_assoc]
  refine ⟨?_, ?_⟩
  · simp [hsource, currentLine, List.findSome?_cons, Instruction.startedLine?]
  · rw [hsource, replacedWithin_self]
    simp [ordinal, sinceLine, Instruction.startedLine?]

theorem atSource_of_unmarked (h : ∀ mark ∈ body.lineMarks, offset < mark.start.toNat) :
    weaver.AtSource context body [] offset (labelAt labels offset) := by
  have hnone : latestMarks body.lineMarks offset = [] := by
    rw [latestMarks, List.filter_eq_nil_iff]
    intro mark hmark hlatest
    exact Nat.not_le.2 (h mark hmark) (of_decide_eq_true hlatest).1
  have hsource : body.sourceAt offset = (0, 0) := by
    rw [sourceAt, hnone]
    rfl
  have hline : currentLine ([] ++ labelAt labels offset) = 0 :=
    currentLine_append startedLine?_labelAt
  have hordinal : weaver.ordinal context ([] ++ labelAt labels offset) = 0 := by
    rw [ordinal_append startedLine?_labelAt, chosen?_labelAt]
    rfl
  rw [List.nil_append] at hline hordinal
  exact ⟨by rw [hline, hsource], by rw [hordinal]; rfl⟩

/-- Up to the next line, an instruction moves the walk on by one number if it is replaced. -/
theorem AtSource.concat {passed : List (Nat × Instruction)} {entry : Nat × Instruction}
    {before : List Instruction} (h : weaver.AtSource context body passed entry.1 before)
    (hreal : entry.2.isPseudo = false) (hbefore : ∀ other ∈ passed, other.1 < entry.1)
    (hlt : entry.1 < offset)
    (hquiet : ∀ mark ∈ body.lineMarks, mark.start.toNat ≤ offset → mark.start.toNat ≤ entry.1) :
    weaver.AtSource context body (passed ++ [entry]) offset
      (before ++ [entry.2] ++ labelAt labels offset) := by
  have hsource : body.sourceAt offset = body.sourceAt entry.1 := by
    rw [sourceAt, sourceAt, latestMarks_of_quiet (Nat.le_of_lt hlt) hquiet]
  have hentry : ∀ event ∈ [entry.2], event.startedLine? = none := by
    intro event hevent
    rw [List.mem_singleton.1 hevent]
    cases hinstruction : entry.2 with
    | line _ _ =>
        rw [hinstruction] at hreal
        cases hreal
    | _ => rfl
  refine ⟨?_, ?_⟩
  · rw [currentLine_append startedLine?_labelAt, currentLine_append hentry, h.line, hsource]
  · rw [ordinal_append startedLine?_labelAt, ordinal_append hentry, h.ordinal, chosen?_labelAt,
      Nat.add_zero, hsource, replacedWithin_concat hbefore hlt sourceAt_le]

theorem lt_of_mem_starts {starts : List Nat} {start stop : Nat}
    (h : (starts ++ [stop]).Pairwise (· < ·)) (hstart : start ∈ starts) : start < stop :=
  (List.pairwise_append.1 h).2.2 start hstart stop (List.mem_singleton_self stop)

theorem le_of_mem_starts {starts : List Nat} {start stop : Nat}
    (h : (starts ++ [stop]).Pairwise (· < ·)) (hstart : start ∈ starts ++ [stop]) :
    start ≤ stop := by
  rcases List.mem_append.1 hstart with hinside | hlast
  · exact Nat.le_of_lt (lt_of_mem_starts h hinside)
  · exact Nat.le_of_eq (List.mem_singleton.1 hlast)

/-- In front of an instruction the walk is where the source is, if every mark up to there is at the
start of an instruction. -/
theorem atSource_of_passed {passed : List (Nat × Instruction)}
    (hstarts : (passed.map (·.1) ++ [offset]).Pairwise (· < ·))
    (hmarks : ∀ mark ∈ body.lineMarks, mark.start.toNat ≤ offset →
      mark.start.toNat ∈ passed.map (·.1) ++ [offset])
    (hreal : ∀ entry ∈ passed, entry.2.isPseudo = false) :
    weaver.AtSource context body passed offset
      (passed.flatMap (eventsAt labels body.linesByOffset) ++
        marksAt labels body.linesByOffset offset) := by
  -- From the end: either a line starts here, or all is as it was behind the instruction before.
  induction passed using List.reverseRecOn generalizing offset with
  | nil =>
      by_cases hstarted : ∃ mark ∈ body.lineMarks, mark.start.toNat = offset
      · obtain ⟨mark, hmark, hstart⟩ := hstarted
        exact atSource_of_started _ _ hmark hstart
      have hquiet : ∀ mark ∈ body.lineMarks, mark.start.toNat ≠ offset :=
        fun mark hmark hstart => hstarted ⟨mark, hmark, hstart⟩
      have hbehind : ∀ mark ∈ body.lineMarks, offset < mark.start.toNat := by
        intro mark hmark
        by_contra hle
        exact hquiet mark hmark (List.mem_singleton.1 (hmarks mark hmark (Nat.le_of_not_lt hle)))
      rw [marksAt_of_unmarked hquiet]
      exact atSource_of_unmarked hbehind
  | append_singleton passed entry ih =>
      by_cases hstarted : ∃ mark ∈ body.lineMarks, mark.start.toNat = offset
      · obtain ⟨mark, hmark, hstart⟩ := hstarted
        exact atSource_of_started _ _ hmark hstart
      have hquiet : ∀ mark ∈ body.lineMarks, mark.start.toNat ≠ offset :=
        fun mark hmark hstart => hstarted ⟨mark, hmark, hstart⟩
      rw [List.map_append, List.map_singleton] at hstarts hmarks
      have hpassed := (List.pairwise_append.1 hstarts).1
      have hlt : entry.1 < offset := lt_of_mem_starts hstarts (by simp)
      have hbefore : ∀ other ∈ passed, other.1 < entry.1 :=
        fun other hother => lt_of_mem_starts hpassed (List.mem_map_of_mem hother)
      have hearlier : ∀ mark ∈ body.lineMarks, mark.start.toNat ≤ offset →
          mark.start.toNat ∈ passed.map (·.1) ++ [entry.1] := by
        intro mark hmark hle
        have hmem := hmarks mark hmark hle
        rw [List.mem_append, List.mem_singleton, or_iff_left (hquiet mark hmark)] at hmem
        exact hmem
      have hat := ih hpassed
        (fun mark hmark hle => hearlier mark hmark (Nat.le_trans hle (Nat.le_of_lt hlt)))
        (fun other hother => hreal other (List.mem_append_left _ hother))
      have hsettled : ∀ mark ∈ body.lineMarks, mark.start.toNat ≤ offset →
          mark.start.toNat ≤ entry.1 :=
        fun mark hmark hle => le_of_mem_starts hpassed (hearlier mark hmark hle)
      rw [marksAt_of_unmarked hquiet, List.flatMap_append, List.flatMap_singleton, eventsAt_eq,
        ← List.append_assoc]
      exact hat.concat (hreal entry (by simp)) hbefore hlt hsettled

/-! ## All templates of a method -/

/-- What an event becomes if the template `template` is meant for it. -/
def pieceWith (weaver : Weaver) (context : MethodContext) (template : String)
    (event : Instruction) : List Instruction :=
  match weaver.chosen? context event with
  | some candidate => [.loadString template, .invoke candidate.call]
  | none => [event]

/-- The identifiers that an event registers if the template `template` is meant for it. -/
def identifiersWith (weaver : Weaver) (context : MethodContext) (template : String)
    (event : Instruction) : List String :=
  match weaver.chosen? context event with
  | some candidate => Objective.identifiers template candidate.category
  | none => []

theorem pieceAfter_eq_pieceWith (hregister : weaver.settings.register = true)
    (before : List Instruction) (event : Instruction) :
    weaver.pieceAfter context before event =
      weaver.pieceWith context (weaver.templateAfter context before) event := by
  rw [pieceAfter, correlationAfter, if_pos hregister]
  rfl

theorem identifiersAfter_eq_identifiersWith (hregister : weaver.settings.register = true)
    (before : List Instruction) (event : Instruction) :
    weaver.identifiersAfter context before event =
      weaver.identifiersWith context (weaver.templateAfter context before) event := by
  simp only [identifiersAfter, if_pos hregister]
  rfl

/-- Behind `before`, the walk gives every replaced call the template `name` has for its offset. -/
def Names (weaver : Weaver) (context : MethodContext) (labels : Std.TreeSet Nat)
    (lines : Std.TreeMap Nat (List UInt16)) (before : List Instruction)
    (entries : List (Nat × Instruction)) (name : Nat → String) : Prop :=
  ∀ passed entry rest, entries = passed ++ entry :: rest →
    weaver.templateAfter context
      (before ++ (passed.flatMap (eventsAt labels lines) ++ marksAt labels lines entry.1)) =
        name entry.1

variable {lines : Std.TreeMap Nat (List UInt16)} {name : Nat → String}
  {before : List Instruction} {size : Nat}

theorem Names.head {entry : Nat × Instruction}
    (h : weaver.Names context labels lines before (entry :: entries) name) :
    weaver.templateAfter context (before ++ marksAt labels lines entry.1) = name entry.1 :=
  h [] entry entries rfl

theorem Names.tail {entry : Nat × Instruction}
    (h : weaver.Names context labels lines before (entry :: entries) name) :
    weaver.Names context labels lines (before ++ marksAt labels lines entry.1 ++ [entry.2])
      entries name := by
  intro passed other rest hsplit
  rw [← h (entry :: passed) other rest (by rw [hsplit, List.cons_append]), List.flatMap_cons,
    eventsAt_eq]
  simp only [List.append_assoc]

theorem Names.pieces (hregister : weaver.settings.register = true)
    (h : weaver.Names context labels lines before entries name) :
    weaver.pieces context labels lines before entries =
      entries.map fun entry => (entry, weaver.pieceWith context (name entry.1) entry.2) := by
  induction entries generalizing before with
  | nil => rfl
  | cons entry rest ih =>
      rw [Weaver.pieces, List.map_cons, ih h.tail, pieceAfter_eq_pieceWith hregister, h.head]

theorem identifiersAfter_of_pseudo {events : List Instruction}
    (h : ∀ event ∈ events, event.isPseudo = true) :
    eachAfter (weaver.identifiersAfter context) before events = [] := by
  rw [List.eq_nil_iff_forall_not_mem]
  intro id hid
  obtain ⟨front, event, hevent, hmem⟩ := mem_eachAfter hid
  have hpseudo := h event hevent
  cases event <;> first | cases hmem | cases hpseudo

theorem decided_append_of_pseudo {front back : List Instruction}
    (h : ∀ event ∈ front, event.isPseudo = true) :
    weaver.decided context (front ++ back) = front ++ weaver.decided context back := by
  apply List.takeWhile_append_of_pos
  intro event hevent
  have hpseudo := h event hevent
  cases event <;> first | rfl | cases hpseudo

/-- The identifiers of all calls up to one that cannot be decided. -/
theorem Names.identifiers (hregister : weaver.settings.register = true)
    (h : weaver.Names context labels lines before entries name) :
    eachAfter (weaver.identifiersAfter context) before
        (weaver.decided context (entries.flatMap (eventsAt labels lines) ++ labelAt labels size)) =
      (entries.takeWhile (weaver.refusal? context ·.2 |>.isNone)).flatMap fun entry =>
        weaver.identifiersWith context (name entry.1) entry.2 := by
  induction entries generalizing before with
  | nil =>
      have hlabel : ∀ event ∈ weaver.decided context (labelAt labels size),
          event.isPseudo = true :=
        fun event hevent => isPseudo_labelAt event ((List.takeWhile_sublist _).subset hevent)
      exact identifiersAfter_of_pseudo hlabel
  | cons entry rest ih =>
      rw [List.flatMap_cons, eventsAt_eq, List.append_assoc, List.append_assoc,
        decided_append_of_pseudo isPseudo_marksAt, eachAfter_append,
        identifiersAfter_of_pseudo isPseudo_marksAt, List.nil_append, List.singleton_append]
      cases hrefused : weaver.refusal? context entry.2 with
      | some fault =>
          rw [decided, List.takeWhile_cons_of_neg (by simp [hrefused]),
            List.takeWhile_cons_of_neg (by simp [hrefused])]
          rfl
      | none =>
          rw [decided, List.takeWhile_cons_of_pos (by simp [hrefused]), ← decided, eachAfter,
            ih h.tail, identifiersAfter_eq_identifiersWith hregister, h.head,
            List.takeWhile_cons_of_pos (by simp [hrefused]), List.flatMap_cons]

variable {pool : Pool} {stream : List Instruction} {passed rest : List (Nat × Instruction)}
  {entry : Nat × Instruction}

theorem starts_lt_split (htiles : Instruction.Tiles pool body.code.length 0 entries body.code)
    (hsplit : entries = passed ++ entry :: rest) :
    ((passed.map (·.1) ++ [entry.1]) ++ (rest.map (·.1) ++ [body.code.length])).Pairwise
      (· < ·) := by
  simpa [hsplit] using htiles.starts_lt_length

/-- A mark up to an instruction is at its start or at the start of one before it. -/
theorem start_mem_passed (htiles : Instruction.Tiles pool body.code.length 0 entries body.code)
    (hbound : body.Bounded entries) (hsplit : entries = passed ++ entry :: rest) :
    ∀ mark ∈ body.lineMarks, mark.start.toNat ≤ entry.1 →
      mark.start.toNat ∈ passed.map (·.1) ++ [entry.1] := by
  intro mark hmark hle
  have hlabel := hbound.mem_starts (labels_contains_iff.2 (.inr (start_mem_offsets hmark)))
  have hmem : mark.start.toNat ∈ (passed.map (·.1) ++ [entry.1]) ++
      (rest.map (·.1) ++ [body.code.length]) := by
    simpa [hsplit] using hlabel
  obtain ⟨-, -, hbelow⟩ := List.pairwise_append.1 (starts_lt_split htiles hsplit)
  rcases List.mem_append.1 hmem with hpassed | hlater
  · exact hpassed
  · exact absurd (hbelow entry.1 (by simp) _ hlater) (Nat.not_lt.2 hle)

theorem passed_prefix_events (hsplit : entries = passed ++ entry :: rest) :
    passed.flatMap (eventsAt (body.labels entries) body.linesByOffset) ++
      marksAt (body.labels entries) body.linesByOffset entry.1 <+: body.events entries := by
  rw [events]
  generalize body.labels entries = labels
  rw [hsplit, List.flatMap_append, List.flatMap_cons, eventsAt_eq]
  simp only [List.append_assoc]
  exact (List.prefix_append_right_inj _).2 (List.prefix_append _ _)

/-- In a method that was read, the walk gives every call the template of its source position. -/
theorem names_sourceTemplate
    (htiles : Instruction.Tiles pool body.code.length 0 entries body.code)
    (hbound : body.Bounded entries)
    (hcalls : (body.events entries).countP (·.isInvoke) < 4294967296) :
    weaver.Names context (body.labels entries) body.linesByOffset [] entries
      (weaver.sourceTemplate context body entries) := by
  intro passed entry rest hsplit
  obtain ⟨hfront, -, hbelow⟩ := List.pairwise_append.1 (starts_lt_split htiles hsplit)
  have hreal : ∀ other ∈ passed, other.2.isPseudo = false := by
    intro other hother
    exact htiles.not_pseudo other (hsplit ▸ List.mem_append_left _ hother)
  have hat : weaver.AtSource context body passed entry.1
      (passed.flatMap (eventsAt (body.labels entries) body.linesByOffset) ++
        marksAt (body.labels entries) body.linesByOffset entry.1) :=
    atSource_of_passed hfront (start_mem_passed htiles hbound hsplit) hreal
  have hlater : ∀ other ∈ entry :: rest, entry.1 ≤ other.1 := by
    intro other hother
    rcases List.mem_cons.1 hother with rfl | hrest
    · exact Nat.le_refl _
    · exact Nat.le_of_lt (hbelow entry.1 (by simp) _
        (List.mem_append_left _ (List.mem_map_of_mem hrest)))
  rw [List.nil_append, templateAfter_eq hcalls (passed_prefix_events hsplit), hat.line,
    hat.ordinal, sourceTemplate]
  simp only [hsplit, replacedWithin_append hlater]

/-- Every call that is replaced while lines are registered gets the template of its class, of the
line its offset belongs to, and of the number of calls that are replaced from the start of this line
up to it. This holds for what is registered, however the walk ends, and for what is put in the place
of the call. -/
theorem weave_names_source (hentries : Instruction.readAll pool body.code = .ok entries)
    (hstream : body.stream pool = .ok stream) (hregister : weaver.settings.register = true)
    (hcalls : stream.countP (·.isInvoke) < 4294967296) :
    (weaver.weave context stream).identifiers =
        (entries.takeWhile (weaver.refusal? context ·.2 |>.isNone)).flatMap (fun entry =>
          weaver.identifiersWith context (weaver.sourceTemplate context body entries entry.1)
            entry.2) ∧
      ∀ woven, (weaver.weave context stream).outcome = .ok woven →
        woven.stream = grown (body.labels entries) body.linesByOffset body.code.length
          (entries.map fun entry =>
            (entry, weaver.pieceWith context (weaver.sourceTemplate context body entries entry.1)
              entry.2)) := by
  obtain ⟨tiling, htiles, hbound, hevents⟩ := stream_eq_ok_iff.1 hstream
  have hsame : tiling = entries :=
    Except.ok.inj ((Instruction.readAll_eq_ok_iff.2 htiles).symm.trans hentries)
  subst hsame hevents
  have hnames : weaver.Names context (body.labels tiling) body.linesByOffset [] tiling _ :=
    names_sourceTemplate htiles hbound hcalls
  have hwalked : weaver.Walked context [] {} (body.events tiling) _ := weave_walked _
  refine ⟨?_, ?_⟩
  · rw [hwalked.identifiers]
    exact hnames.identifiers hregister
  · intro woven hok
    rw [(weave_ok hok).stream, events, eachAfter_events, hnames.pieces hregister]

/-! ## Tables out of order -/

/-- Three comparisons. The tables mark offset 6 twice, and the end of the code first of all. -/
def scatteredBody : MethodBody where
  maxStack := 4
  maxLocals := 2
  code := [0x2A, 0x2B, 0xB6, 0, 6, 0x57, 0x2A, 0x2B, 0xB6, 0, 6, 0x57, 0x2A, 0x2B, 0xB6, 0, 6, 0xAC]
  handlers := []
  attributes := [.lineNumbers 1 [⟨18, 99⟩, ⟨6, 9⟩], .lineNumbers 1 [⟨6, 20⟩]]

/-- The pushes and the call of a comparison, and what becomes of its result. -/
def comparison (offset : Nat) (last : UInt8) : List (Nat × Instruction) :=
  [(offset, .simple 0x2A), (offset + 1, .simple 0x2B),
    (offset + 2, .invoke (equalsCall (some 6))), (offset + 5, .simple last)]

def scatteredEntries : List (Nat × Instruction) :=
  comparison 0 0x57 ++ comparison 6 0x57 ++ comparison 12 0xAC

def scatteredStream : List Instruction :=
  [.simple 0x2A, .simple 0x2B, .invoke (equalsCall (some 6)), .simple 0x57, .label 6, .line 9 6,
    .line 20 6, .simple 0x2A, .simple 0x2B, .invoke (equalsCall (some 6)), .simple 0x57,
    .simple 0x2A, .simple 0x2B, .invoke (equalsCall (some 6)), .simple 0xAC, .label 18]

theorem replacedWithin_scattered (start stop : Nat) :
    equalsWeaver.replacedWithin loopMethod scatteredEntries start stop =
      [2, 8, 14].countP fun offset => start ≤ offset ∧ offset < stop := by
  have hchosen : equalsWeaver.chosen? loopMethod (.invoke (equalsCall (some 6))) =
      some equalsCandidate := by
    simp only [chosen?, select_equalsCall]
  have hkept (opcode : UInt8) : equalsWeaver.chosen? loopMethod (.simple opcode) = none := rfl
  simp [replacedWithin, scatteredEntries, comparison, hchosen, hkept, List.countP_cons]

theorem sourceTemplate_scattered (offset line number : Nat) {text : String}
    (hline : (scatteredBody.sourceAt offset).1 = line)
    (hnumber : [2, 8, 14].countP (fun other =>
      decide ((scatteredBody.sourceAt offset).2 ≤ other ∧ other < offset)) = number)
    (htext : Objective.template "p/Loop" line number = text) :
    equalsWeaver.sourceTemplate loopMethod scatteredBody scatteredEntries offset = text := by
  rw [sourceTemplate, replacedWithin_scattered, hline, hnumber]
  exact htext

/-- The second and the third comparison are on the line that is stored last for their start. -/
theorem scattered_names_source :
    Instruction.readAll poolOfEquals scatteredBody.code = .ok scatteredEntries ∧
      scatteredBody.stream poolOfEquals = .ok scatteredStream ∧
      equalsWeaver.settings.register = true ∧
      scatteredStream.countP (·.isInvoke) < 4294967296 ∧
      equalsWeaver.sourceTemplate loopMethod scatteredBody scatteredEntries 2 =
        "MethodReplacement_at_p.Loop_00000_0" ∧
      equalsWeaver.sourceTemplate loopMethod scatteredBody scatteredEntries 8 =
        "MethodReplacement_at_p.Loop_00020_0" ∧
      equalsWeaver.sourceTemplate loopMethod scatteredBody scatteredEntries 14 =
        "MethodReplacement_at_p.Loop_00020_1" ∧
      ∃ woven, (equalsWeaver.weave loopMethod scatteredStream).outcome = .ok woven ∧
        woven.stream = grown (scatteredBody.labels scatteredEntries) scatteredBody.linesByOffset
          scatteredBody.code.length (scatteredEntries.map fun entry =>
            (entry, equalsWeaver.pieceWith loopMethod (equalsWeaver.sourceTemplate loopMethod
              scatteredBody scatteredEntries entry.1) entry.2)) := by
  have hentries : Instruction.readAll poolOfEquals scatteredBody.code = .ok scatteredEntries := rfl
  have hstream : scatteredBody.stream poolOfEquals = .ok scatteredStream := rfl
  have hok : ∃ woven, (equalsWeaver.weave loopMethod scatteredStream).outcome = .ok woven := by
    simp only [weave, weaveFrom, scatteredStream, select_equalsCall]
    exact ⟨_, rfl⟩
  rcases hok with ⟨woven, hwoven⟩
  obtain ⟨-, hwove⟩ := @weave_names_source _ equalsWeaver loopMethod _ _ _ hentries hstream rfl
    (by decide)
  exact ⟨hentries, hstream, rfl, by decide, sourceTemplate_scattered 2 0 0 rfl rfl (by cbv),
    sourceTemplate_scattered 8 20 0 rfl rfl (by cbv),
    sourceTemplate_scattered 14 20 1 rfl rfl (by cbv), woven, hwoven, hwove woven hwoven⟩

end Weaver

end CallProbe
