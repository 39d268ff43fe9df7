import CallProbe.Proofs.CallSite.Weaving
import CallProbe.Proofs.Objective.Identifier

/-!
# Which calls share a template

Numbers are handed out from zero at every start of a line, also of a line that has
been left before. Two calls of a method therefore get the same template exactly if
they agree in line and number, and this takes a line that starts between them.
-/

namespace CallProbe

namespace Instruction

def isInvoke : Instruction → Bool
  | invoke _ => true
  | _ => false

/-- The text that is loaded. -/
def loadedText? : Instruction → Option String
  | loadString text => some text
  | _ => none

end Instruction

/-- Nothing is forgotten while no line starts. -/
theorem sinceLine_append {front back : List Instruction}
    (h : ∀ event ∈ back, event.startedLine? = none) :
    sinceLine (front ++ back) = back.reverse ++ sinceLine front := by
  unfold sinceLine
  rw [List.reverse_append, List.takeWhile_append_of_pos]
  intro event hevent
  rw [h event (List.mem_reverse.1 hevent)]
  rfl

theorem currentLine_append {front back : List Instruction}
    (h : ∀ event ∈ back, event.startedLine? = none) :
    currentLine (front ++ back) = currentLine front := by
  have hnone : back.reverse.findSome? Instruction.startedLine? = none :=
    List.findSome?_eq_none_iff.2 fun event hevent => h event (List.mem_reverse.1 hevent)
  rw [currentLine, List.reverse_append, List.findSome?_append, hnone, Option.none_or, currentLine]

namespace Weaver

variable {weaver : Weaver} {method : MethodContext}

theorem ordinal_le_calls (before : List Instruction) :
    weaver.ordinal method before ≤ before.countP (·.isInvoke) := by
  unfold ordinal sinceLine
  calc _ ≤ before.reverse.countP (weaver.chosen? method · |>.isSome) :=
        (List.takeWhile_sublist _).countP_le
    _ = before.countP (weaver.chosen? method · |>.isSome) := List.countP_reverse
    _ ≤ before.countP (·.isInvoke) := by
        apply List.countP_mono_left
        intro event _ hchosen
        cases event <;> first | rfl | cases hchosen

/-- While no line starts, every replaced call takes the next number. -/
theorem ordinal_append {front back : List Instruction}
    (h : ∀ event ∈ back, event.startedLine? = none) :
    weaver.ordinal method (front ++ back) =
      weaver.ordinal method front + back.countP (weaver.chosen? method · |>.isSome) := by
  unfold ordinal
  rw [sinceLine_append h, List.countP_append, List.countP_reverse, Nat.add_comm]

/-- Under one start of a line, every replaced call takes a number of its own. -/
theorem ordinal_lt {front middle : List Instruction} {first : Call}
    (hchosen : (weaver.chosen? method (.invoke first)).isSome)
    (hmiddle : ∀ event ∈ middle, event.startedLine? = none) :
    weaver.ordinal method front < weaver.ordinal method (front ++ .invoke first :: middle) := by
  have hlines : ∀ event ∈ Instruction.invoke first :: middle, event.startedLine? = none :=
    List.forall_mem_cons.2 ⟨rfl, hmiddle⟩
  rw [ordinal_append hlines, List.countP_cons, if_pos hchosen]
  omega

/-- Among fewer calls than there are numbers, every call gets its own number. -/
theorem templateAfter_eq {stream before : List Instruction}
    (hcalls : stream.countP (·.isInvoke) < 4294967296) (h : before <+: stream) :
    weaver.templateAfter method before =
      Objective.template method.className (currentLine before) (weaver.ordinal method before) := by
  have hbound : weaver.ordinal method before ≤ SourcePosition.maxIndex := by
    have hle : weaver.ordinal method before ≤ _ := ordinal_le_calls before
    have hsub : before.countP (·.isInvoke) ≤ stream.countP (·.isInvoke) := h.sublist.countP_le
    unfold SourcePosition.maxIndex
    omega
  rw [templateAfter, Nat.min_eq_left hbound]

/-- Among fewer calls than there are numbers, no two numbers are merged. -/
theorem templateAfter_eq_iff {stream before before' : List Instruction}
    (hcalls : stream.countP (·.isInvoke) < 4294967296) (h : before <+: stream)
    (h' : before' <+: stream) :
    weaver.templateAfter method before = weaver.templateAfter method before' ↔
      currentLine before = currentLine before' ∧
        weaver.ordinal method before = weaver.ordinal method before' := by
  rw [templateAfter_eq hcalls h, templateAfter_eq hcalls h']
  constructor
  · intro htemplate
    exact (Objective.template_eq_iff.1 htemplate).2
  · intro hsame
    rw [hsame.1, hsame.2]

/-- Two replaced calls of a stream with what lies around them. -/
structure ReplacedPair (weaver : Weaver) (method : MethodContext) (stream : List Instruction) where
  front : List Instruction
  first : Call
  middle : List Instruction
  second : Call
  back : List Instruction
  candidate : Candidate
  candidate' : Candidate
  stream_eq : stream = front ++ .invoke first :: (middle ++ .invoke second :: back)
  chosen_first : weaver.chosen? method (.invoke first) = some candidate
  chosen_second : weaver.chosen? method (.invoke second) = some candidate'

namespace ReplacedPair

variable {stream : List Instruction}

/-- What stands before the second call. -/
def upToSecond (pair : weaver.ReplacedPair method stream) : List Instruction :=
  pair.front ++ .invoke pair.first :: pair.middle

def template (pair : weaver.ReplacedPair method stream) : String :=
  weaver.templateAfter method pair.front

def template' (pair : weaver.ReplacedPair method stream) : String :=
  weaver.templateAfter method pair.upToSecond

end ReplacedPair

/-- A stream is woven into pieces, one for each event, and a replaced call into its template and
the substitute. The templates of two replaced calls are equal if and only if both calls have the
same number on the same line, which cannot be unless a line starts between them. Calls with
different templates have no identifier in common. -/
theorem weave_templates {stream : List Instruction} {woven : WovenMethod}
    (hregister : weaver.settings.register = true)
    (hcalls : stream.countP (·.isInvoke) < 4294967296)
    (hok : (weaver.weave method stream).outcome = .ok woven) :
    woven.stream = eachAfter (weaver.pieceAfter method) [] stream ∧
    (weaver.weave method stream).identifiers =
      eachAfter (weaver.identifiersAfter method) [] stream ∧
    ∀ pair : weaver.ReplacedPair method stream,
      weaver.pieceAfter method pair.front (.invoke pair.first) =
          [.loadString pair.template, .invoke pair.candidate.call] ∧
        weaver.pieceAfter method pair.upToSecond (.invoke pair.second) =
          [.loadString pair.template', .invoke pair.candidate'.call] ∧
        (pair.template = pair.template' ↔
          currentLine pair.front = currentLine pair.upToSecond ∧
            weaver.ordinal method pair.front = weaver.ordinal method pair.upToSecond) ∧
        (pair.template = pair.template' → ∃ number start, .line number start ∈ pair.middle) ∧
        (pair.template ≠ pair.template' →
          List.Disjoint (Objective.identifiers pair.template pair.candidate.category)
            (Objective.identifiers pair.template' pair.candidate'.category)) := by
  have hwove := weave_ok hok
  refine ⟨hwove.stream, hwove.identifiers, ?_⟩
  intro pair
  have hfront : pair.front <+: stream := ⟨_, pair.stream_eq.symm⟩
  have hupto : pair.upToSecond <+: stream := by
    refine ⟨.invoke pair.second :: pair.back, Eq.trans ?_ pair.stream_eq.symm⟩
    rw [ReplacedPair.upToSecond, List.append_assoc, List.cons_append]
  have hiff : pair.template = pair.template' ↔ _ := templateAfter_eq_iff hcalls hfront hupto
  refine ⟨?_, ?_, hiff, ?_, fun hne => Objective.identifiers_disjoint hne _ _⟩
  · simp [pieceAfter, correlationAfter, pair.chosen_first, hregister, ReplacedPair.template]
  · simp [pieceAfter, correlationAfter, pair.chosen_second, hregister, ReplacedPair.template']
  · intro hsame
    by_contra hnone
    have hmiddle : ∀ event ∈ pair.middle, event.startedLine? = none := by
      intro event hevent
      cases event with
      | line number start => exact absurd ⟨number, start, hevent⟩ hnone
      | _ => rfl
    have hfirst : (weaver.chosen? method (.invoke pair.first)).isSome = true := by
      rw [pair.chosen_first]
      rfl
    have hlt : weaver.ordinal method pair.front < weaver.ordinal method pair.upToSecond :=
      ordinal_lt hfirst hmiddle
    exact absurd (hiff.1 hsame).2 (Nat.ne_of_lt hlt)

/-! ## A line that is entered again -/

/-- A loop: its header is on line 12, its body on line 13, and the header comes again. -/
def loopStream : List Instruction :=
  [.line 12 0, .invoke (equalsCall none), .line 13 3, .invoke (equalsCall none), .line 12 6,
    .invoke (equalsCall none)]

/-- The header of the loop gives its call the same template both times. -/
theorem revisited_line_repeats_template :
    equalsWeaver.settings.register = true ∧
      loopStream.countP (·.isInvoke) < 4294967296 ∧
      loopStream.filterMap (·.loadedText?) = [] ∧
      ∃ woven, (equalsWeaver.weave loopMethod loopStream).outcome = .ok woven ∧
        woven.substituted = 3 ∧
        woven.stream.filterMap (·.loadedText?) =
          ["MethodReplacement_at_p.Loop_00012_0", "MethodReplacement_at_p.Loop_00013_0",
            "MethodReplacement_at_p.Loop_00012_0"] ∧
        ¬ (woven.stream.filterMap (·.loadedText?)).Nodup := by
  have hline12 : Objective.template "p/Loop" 12 0 = "MethodReplacement_at_p.Loop_00012_0" := by cbv
  have hline13 : Objective.template "p/Loop" 13 0 = "MethodReplacement_at_p.Loop_00013_0" := by cbv
  have hwoven : ∃ woven, (equalsWeaver.weave loopMethod loopStream).outcome = .ok woven ∧
      woven.substituted = 3 ∧
      woven.stream.filterMap (·.loadedText?) =
        [Objective.template "p/Loop" 12 0, Objective.template "p/Loop" 13 0,
          Objective.template "p/Loop" 12 0] := by
    simp only [weave, weaveFrom, loopStream, select_equalsCall]
    exact ⟨_, rfl, rfl, rfl⟩
  rcases hwoven with ⟨woven, hok, hthree, htexts⟩
  rw [hline12, hline13] at htexts
  refine ⟨rfl, by decide, rfl, woven, hok, hthree, htexts, ?_⟩
  rw [htexts]
  decide

theorem chosen?_equalsCall :
    equalsWeaver.chosen? loopMethod (.invoke (equalsCall none)) = some equalsCandidate := by
  simp only [chosen?, select_equalsCall]

/-- The calls on lines 12 and 13. -/
def headerAndBody : equalsWeaver.ReplacedPair loopMethod loopStream where
  front := [.line 12 0]
  first := equalsCall none
  middle := [.line 13 3]
  second := equalsCall none
  back := [.line 12 6, .invoke (equalsCall none)]
  candidate := equalsCandidate
  candidate' := equalsCandidate
  stream_eq := rfl
  chosen_first := chosen?_equalsCall
  chosen_second := chosen?_equalsCall

theorem header_and_body_differ :
    equalsWeaver.settings.register = true ∧
      loopStream.countP (·.isInvoke) < 4294967296 ∧
      (∃ woven, (equalsWeaver.weave loopMethod loopStream).outcome = .ok woven) ∧
      headerAndBody.template ≠ headerAndBody.template' ∧
      List.Disjoint (Objective.identifiers headerAndBody.template .boolean)
        (Objective.identifiers headerAndBody.template' .boolean) := by
  have hok : ∃ woven, (equalsWeaver.weave loopMethod loopStream).outcome = .ok woven := by
    simp only [weave, weaveFrom, loopStream, select_equalsCall]
    exact ⟨_, rfl⟩
  rcases hok with ⟨woven, hwoven⟩
  obtain ⟨-, -, hpairs⟩ := weave_templates rfl (by decide) hwoven
  obtain ⟨-, -, hiff, -, hdisjoint⟩ := hpairs headerAndBody
  have hne : headerAndBody.template ≠ headerAndBody.template' := by
    intro hsame
    have hline := (hiff.1 hsame).1
    revert hline
    decide
  exact ⟨rfl, by decide, ⟨woven, hwoven⟩, hne, hdisjoint hne⟩

end Weaver

end CallProbe
