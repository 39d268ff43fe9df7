import CallProbe.Instrumentation.Method
import CallProbe.Proofs.CallSite.Weaving
import CallProbe.Proofs.MethodBody.Relaying

/-!
# Reading an instrumented method

Weaving lets a stream grow, so the body is laid out anew and its tables move along. What
is stored in the end is therefore read as the stream that was woven, with every label at
its new place and every new symbol in the pool that was left.
-/

namespace CallProbe

open Outcome MethodBody

/-! ## Weaving lets a stream grow -/

namespace Weaver

variable {weaver : Weaver} {context : MethodContext} {pool : Pool}
  {entries : List (Nat × Instruction)}

theorem eachAfter_of_pseudo {before events : List Instruction}
    (h : ∀ event ∈ events, event.isPseudo = true) :
    eachAfter (weaver.pieceAfter context) before events = events := by
  induction events generalizing before with
  | nil => rfl
  | cons event rest ih =>
      obtain ⟨hevent, hrest⟩ := List.forall_mem_cons.1 h
      have hkept : weaver.chosen? context event = none := by
        cases event <;> first | rfl | cases hevent
      rw [eachAfter, ih hrest, pieceAfter_of_kept hkept, List.singleton_append]

/-- What is pushed takes bytes, leads nowhere and needs nothing of a pool. -/
theorem correlationAfter_plain (weaver : Weaver) (context : MethodContext) (pool : Pool)
    (before : List Instruction) :
    (weaver.correlationAfter context before).isPseudo = false ∧
      (weaver.correlationAfter context before).targets = [] ∧
      (weaver.correlationAfter context before).WellFormed pool := by
  have hnull : Opcode.operands? Opcode.aconstNull = some .none := by decide
  unfold correlationAfter
  split
  · exact ⟨rfl, rfl, trivial⟩
  · exact ⟨rfl, rfl, hnull⟩

/-- An instruction grows into the piece that it becomes. -/
theorem pieceAfter_growsInto (before : List Instruction) {event : Instruction}
    (hreal : event.isPseudo = false) :
    event.GrowsInto (weaver.pieceAfter context before event) := by
  rcases weaver.pieceAfter_cases before event with hpiece | ⟨call, candidate, hcall, hpiece⟩
  · rw [hpiece]
    exact ⟨by simp, by simpa using hreal, by simp⟩
  · obtain ⟨hpush, hnone, -⟩ := weaver.correlationAfter_plain context Pool.empty before
    have hsubstitute : (Instruction.invoke candidate.call).isPseudo = false := rfl
    have htargets (call : Call) : (Instruction.invoke call).targets = [] := rfl
    rw [hpiece]
    exact ⟨by simp, by simp [hpush, hsubstitute], by simp [hnone, hcall, htargets]⟩

variable {labels : Std.TreeSet Nat} {lines : Std.TreeMap Nat (List UInt16)} {size : Nat}

/-- The instructions behind some events, each with the piece that it becomes. -/
def pieces (weaver : Weaver) (context : MethodContext) (labels : Std.TreeSet Nat)
    (lines : Std.TreeMap Nat (List UInt16)) (before : List Instruction) :
    List (Nat × Instruction) → List ((Nat × Instruction) × List Instruction)
  | [] => []
  | entry :: rest =>
    let front := before ++ marksAt labels lines entry.1
    (entry, weaver.pieceAfter context front entry.2)
      :: pieces weaver context labels lines (front ++ [entry.2]) rest

theorem map_pieces (before : List Instruction) :
    (weaver.pieces context labels lines before entries).map (·.1) = entries := by
  induction entries generalizing before with
  | nil => rfl
  | cons entry rest ih => rw [pieces, List.map_cons, ih]

theorem mem_pieces {before : List Instruction} {piece : (Nat × Instruction) × List Instruction}
    (h : piece ∈ weaver.pieces context labels lines before entries) :
    piece.1 ∈ entries ∧ ∃ front, piece.2 = weaver.pieceAfter context front piece.1.2 := by
  induction entries generalizing before with
  | nil => cases h
  | cons entry rest ih =>
      rcases List.mem_cons.1 h with rfl | hrest
      · exact ⟨List.mem_cons_self, _, rfl⟩
      · obtain ⟨hmem, hfront⟩ := ih hrest
        exact ⟨List.mem_cons_of_mem _ hmem, hfront⟩

/-- What comes out for the events of a method. -/
theorem eachAfter_events (before : List Instruction) :
    eachAfter (weaver.pieceAfter context) before
        (entries.flatMap (eventsAt labels lines) ++ labelAt labels size) =
      grown labels lines size (weaver.pieces context labels lines before entries) := by
  induction entries generalizing before with
  | nil =>
      rw [List.flatMap_nil, List.nil_append, eachAfter_of_pseudo isPseudo_labelAt]
      rfl
  | cons entry rest ih =>
      rw [List.flatMap_cons, eventsAt_eq, List.append_assoc, List.append_assoc, eachAfter_append,
        eachAfter_of_pseudo isPseudo_marksAt, List.singleton_append, eachAfter, ih, pieces, grown,
        List.append_assoc (marksAt _ _ _)]

theorem pieces_growsInto (hreal : ∀ entry ∈ entries, entry.2.isPseudo = false)
    (before : List Instruction) :
    ∀ piece ∈ weaver.pieces context labels lines before entries, piece.1.2.GrowsInto piece.2 := by
  intro piece hpiece
  obtain ⟨hentry, front, hbecomes⟩ := mem_pieces hpiece
  rw [hbecomes]
  exact pieceAfter_growsInto front (hreal _ hentry)

/-- A woven stream has grown out of the stream that was read. -/
theorem grows (hreal : ∀ entry ∈ entries, entry.2.isPseudo = false) (before : List Instruction) :
    Grows labels lines size entries (eachAfter (weaver.pieceAfter context) before
      (entries.flatMap (eventsAt labels lines) ++ labelAt labels size)) :=
  grows_iff.2 ⟨_, map_pieces before, eachAfter_events before, pieces_growsInto hreal before⟩

theorem weave_grows {body : MethodBody} {woven : WovenMethod}
    (hreal : ∀ entry ∈ entries, entry.2.isPseudo = false)
    (h : (weaver.weave context (body.events entries)).outcome = .ok woven) :
    Grows (body.labels entries) body.linesByOffset body.code.length entries woven.stream := by
  rw [(weave_ok h).stream]
  exact grows hreal []

/-- What holds of all events, and of everything that is put in, holds of a woven stream. -/
theorem forall_mem_eachAfter {p : Instruction → Prop} {before stream : List Instruction}
    (hevents : ∀ event ∈ stream, p event)
    (hpush : ∀ front, p (weaver.correlationAfter context front))
    (hcall : ∀ candidate : Candidate, p (.invoke candidate.call)) :
    ∀ instruction ∈ eachAfter (weaver.pieceAfter context) before stream, p instruction := by
  intro instruction hmem
  obtain ⟨front, event, hevent, hmem⟩ := mem_eachAfter hmem
  rcases weaver.pieceAfter_cases front event with hpiece | ⟨call, candidate, -, hpiece⟩
  · rw [hpiece] at hmem
    rw [List.mem_singleton.1 hmem]
    exact hevents event hevent
  · rw [hpiece] at hmem
    rcases List.mem_cons.1 hmem with rfl | hsubstitute
    · exact hpush front
    · rw [List.mem_singleton.1 hsubstitute]
      exact hcall candidate

theorem wellFormed_eachAfter {before stream : List Instruction}
    (h : ∀ event ∈ stream, event.WellFormed pool) :
    ∀ instruction ∈ eachAfter (weaver.pieceAfter context) before stream,
      instruction.WellFormed pool := by
  refine forall_mem_eachAfter h (fun front => (correlationAfter_plain _ _ _ front).2.2) ?_
  intro candidate index hindex
  cases hindex

/-! ## The stages of a method -/

/-- What a method goes through when a call of it is replaced. -/
structure Stages (weaver : Weaver) (method : MethodSource) (pool left : Pool)
    (result : InstrumentedMethod) where
  code : Bytes
  body : MethodBody
  stream : List Instruction
  woven : WovenMethod
  encoded : EncodedCode
  moved : MethodBody
  stored : Bytes
  code_eq : method.code = some code
  access_eq : method.access.isBodyless = false
  body_eq : MethodBody.ofBytes pool code = .ok body
  stream_eq : body.stream pool = .ok stream
  woven_eq : (weaver.weave (method.context body.maxStack) stream).outcome = .ok woven
  encoded_eq : encodeStream woven.stream pool = (.ok encoded, left)
  moved_eq : body.Moved (encoded.offsets[·]?) encoded.code moved
  stored_eq : { moved with maxStack := woven.maxStack }.encode = .ok stored
  result_eq : result.code = some stored ∧ result.substituted = woven.substituted

variable {method : MethodSource} {store : ObjectiveStore} {left : Pool}
  {result : InstrumentedMethod}

theorem read_eq_ok_some_iff {body : MethodBody} {stream : List Instruction} :
    method.read pool = .ok (some (body, stream)) ↔ ∃ code, method.code = some code ∧
      method.access.isBodyless = false ∧ MethodBody.ofBytes pool code = .ok body ∧
      body.stream pool = .ok stream := by
  unfold MethodSource.read
  cases method.code with
  | none => simp
  | some code =>
      cases hbodyless : method.access.isBodyless with
      | true => simp [bind_eq_ok_iff]
      | false =>
          simp only [bind_eq_ok_iff, pure_eq_ok_iff, Bool.false_eq_true, if_false]
          constructor
          · intro h
            rcases h with ⟨_, hbody, _, hstream, hsome⟩
            cases hsome
            exact ⟨code, rfl, trivial, hbody, hstream⟩
          · intro h
            rcases h with ⟨_, hcode, -, hbody, hstream⟩
            cases hcode
            exact ⟨_, hbody, _, hstream, rfl⟩

theorem prepare_eq_ok_some {prepared : PreparedMethod}
    (h : (method.prepare weaver pool).outcome = .ok (some prepared)) : ∃ stream,
      method.read pool = .ok (some (prepared.body, stream)) ∧
      (weaver.weave (method.context prepared.body.maxStack) stream).outcome =
        .ok prepared.woven := by
  unfold MethodSource.prepare at h
  split at h
  · cases h
  · cases h
  · rename_i body stream hread
    obtain ⟨woven, hwoven, hsome⟩ := map_eq_ok_iff.1 h
    cases hsome
    exact ⟨stream, hread, hwoven⟩

theorem prepare_of_weave {body : MethodBody} {stream : List Instruction} {woven : WovenMethod}
    (hread : method.read pool = .ok (some (body, stream)))
    (hwoven : (weaver.weave (method.context body.maxStack) stream).outcome = .ok woven) :
    (method.prepare weaver pool).outcome = .ok (some { body, woven }) := by
  unfold MethodSource.prepare
  rw [hread]
  exact map_eq_ok_iff.2 ⟨woven, hwoven, rfl⟩

theorem encode_eq_ok {prepared : PreparedMethod}
    (h : (method.encode prepared pool).outcome = .ok result) : ∃ encoded moved stored,
      encodeStream prepared.woven.stream pool =
        (.ok encoded, (method.encode prepared pool).pool) ∧
      prepared.body.Moved (encoded.offsets[·]?) encoded.code moved ∧
      { moved with maxStack := prepared.woven.maxStack }.encode = .ok stored ∧
      result.code = some stored ∧ result.substituted = prepared.woven.substituted := by
  unfold MethodSource.encode at h ⊢
  rcases hencoded : encodeStream prepared.woven.stream pool with ⟨outcome, left⟩
  cases outcome with
  | error fault =>
      rw [hencoded] at h
      cases h
  | ok encoded =>
      rw [hencoded] at h
      obtain ⟨moved, hmoved, h⟩ := bind_eq_ok_iff.1 h
      obtain ⟨stored, hstored, h⟩ := bind_eq_ok_iff.1 h
      cases h
      exact ⟨encoded, moved, stored, rfl, MethodBody.relocate_eq_ok_iff.1 hmoved, hstored, rfl, rfl⟩

theorem nonempty_stages (hok : (weaver.instrument method pool store).outcome = .ok result)
    (hreplaced : 0 < result.substituted) :
    Nonempty (weaver.Stages method pool (weaver.instrument method pool store).pool result) := by
  have hunchanged : method.unchanged ≠ result := by
    rintro rfl
    cases hreplaced
  unfold instrument at hok ⊢
  dsimp only at hok ⊢
  cases hprepared : (method.prepare weaver pool).outcome with
  | error fault =>
      rw [hprepared] at hok
      cases hok
  | ok prepared =>
      rw [hprepared] at hok
      cases prepared with
      | none => exact absurd (Except.ok.inj hok) hunchanged
      | some prepared =>
          by_cases hnone : prepared.woven.substituted = 0
          · simp only [MethodSource.finish, if_pos hnone] at hok
            exact absurd (Except.ok.inj hok) hunchanged
          · simp only [MethodSource.finish, if_neg hnone, Finishing.settle] at hok ⊢
            obtain ⟨stream, hread, hwoven⟩ := prepare_eq_ok_some hprepared
            obtain ⟨code, hcode, haccess, hbody, hstream⟩ := read_eq_ok_some_iff.1 hread
            obtain ⟨encoded, moved, stored, hencoded, hmoved, hstored, hresult⟩ := encode_eq_ok hok
            rw [hok]
            exact ⟨⟨code, prepared.body, stream, prepared.woven, encoded, moved, stored, hcode,
              haccess, hbody, hstream, hwoven, hencoded, hmoved, hstored, hresult⟩⟩

/-- A method that was prepared comes out as it was finished. -/
theorem instrument_of_finish (store : ObjectiveStore) {prepared : Option PreparedMethod}
    (hprepared : (method.prepare weaver pool).outcome = .ok prepared)
    (hfinished : (method.finish prepared pool).outcome = .ok result) :
    (weaver.instrument method pool store).outcome = .ok result ∧
      (weaver.instrument method pool store).pool = (method.finish prepared pool).pool ∧
      (weaver.instrument method pool store).store =
        store.registerAll (method.prepare weaver pool).identifiers := by
  unfold instrument
  simp only [hprepared, hfinished, Finishing.settle, and_self]

/-- A method of which a call is replaced comes out as it was encoded. -/
theorem instrument_of_encode {body : MethodBody} {stream : List Instruction} {woven : WovenMethod}
    (hread : method.read pool = .ok (some (body, stream)))
    (hwoven : (weaver.weave (method.context body.maxStack) stream).outcome = .ok woven)
    (hreplaced : woven.substituted ≠ 0)
    (hencode : (method.encode ⟨body, woven⟩ pool).outcome = .ok result) :
    (weaver.instrument method pool store).outcome = .ok result := by
  have hfinish : method.finish (some ⟨body, woven⟩) pool = method.encode ⟨body, woven⟩ pool :=
    if_neg hreplaced
  exact (instrument_of_finish store (prepare_of_weave hread hwoven) (hfinish ▸ hencode)).1

namespace Stages

/-- The woven stream is laid out with all its labels at starts that have moved along. -/
theorem relaid (stages : weaver.Stages method pool left result) :
    ∃ entries placements layout moves,
      Relaid pool left stages.body stages.moved entries placements layout moves ∧
        placements.map (·.instruction) = stages.woven.stream ∧
        stages.encoded.offsets = layout.labels := by
  obtain ⟨entries, htiles, hbound, hstream⟩ := stream_eq_ok_iff.1 stages.stream_eq
  obtain ⟨placements, layout, hmap, hlays, hencodable, hencoded⟩ :=
    encodeStream_eq_ok_iff.1 stages.encoded_eq
  have hmoved := stages.moved_eq
  rw [hencoded] at hmoved
  have hwoven := stages.woven_eq
  rw [hstream] at hwoven
  have hgrows := weave_grows htiles.not_pseudo hwoven
  obtain ⟨moves, hspreads⟩ := hgrows.spreads hmap hlays.consecutive
  have hwell : ∀ placement ∈ placements, placement.instruction.WellFormed pool := by
    intro placement hplacement
    have hmem : placement.instruction ∈ stages.woven.stream :=
      hmap ▸ List.mem_map_of_mem hplacement
    rw [(weave_ok hwoven).stream] at hmem
    exact wellFormed_eachAfter (wellFormed_events htiles) _ hmem
  have htargets (target : Label) :
      (∃ placement ∈ placements, target ∈ placement.instruction.targets) ↔
        ∃ entry ∈ entries, target ∈ entry.2.targets := by
    rw [← hgrows.targets_iff, ← hmap]
    simp
  refine ⟨entries, placements, layout, moves, ?_, hmap, by rw [hencoded]⟩
  exact ⟨htiles, hbound, hlays, hwell, hencodable, htargets, hspreads, hmoved⟩

/-- The body that comes out, with one more stack slot. -/
def output (stages : weaver.Stages method pool left result) : MethodBody :=
  { stages.moved with maxStack := stages.woven.maxStack }

theorem maxStack_output (stages : weaver.Stages method pool left result) :
    stages.output.maxStack.toNat = stages.body.maxStack.toNat + 1 :=
  deepenStack_eq_ok_iff.1 (weave_ok stages.woven_eq).maxStack

/-- What was stored is read as the body that comes out. -/
theorem ofBytes_stored (stages : weaver.Stages method pool left result) (hs : pool.Sound) :
    MethodBody.ofBytes left stages.stored = .ok stages.output := by
  obtain ⟨_, _, _, _, hrelaid, -⟩ := stages.relaid
  have hmoved := hrelaid.storable_moved hs (storable_of_ofBytes stages.body_eq)
  have hstorable : stages.output.Storable left :=
    ⟨hmoved.code_ne_nil, hmoved.length_le, hmoved.attributes⟩
  exact ofBytes_encode hstorable stages.stored_eq

/-- The code of the body that comes out is read as the woven stream. -/
theorem output_readsAs (stages : weaver.Stages method pool left result) (hs : pool.Sound) :
    ∃ read, ∃ place : Label → Option Nat, stages.output.stream left = .ok read ∧
      (∀ {a b p q}, place a = some p → place b = some q → (a < b ↔ p < q)) ∧
      List.Forall₂ (Instruction.ReadsAs left place) stages.woven.stream read := by
  obtain ⟨entries, placements, layout, moves, hrelaid, hmap, -⟩ := stages.relaid
  have hread := hrelaid.readsAs hs
  rw [hmap] at hread
  exact ⟨_, _, hrelaid.stream_moved hs, hrelaid.place_lt, hread⟩

end Stages

/-- Reading the stored bytes of an instrumented method against the pool that was left gives the
woven stream of the original: labels are renamed by a map that keeps their order, what was put in
is found in the pool, and all other instructions are the same. -/
theorem instrument_reads_back (hbuilt : pool.Built)
    (hok : (weaver.instrument method pool store).outcome = .ok result)
    (hreplaced : 0 < result.substituted) :
    ∃ code body stream woven stored moved read, ∃ place : Label → Option Nat,
      method.code = some code ∧ MethodBody.ofBytes pool code = .ok body ∧
      body.stream pool = .ok stream ∧
      (weaver.weave (method.context body.maxStack) stream).outcome = .ok woven ∧
      result.code = some stored ∧
      MethodBody.ofBytes (weaver.instrument method pool store).pool stored = .ok moved ∧
      moved.stream (weaver.instrument method pool store).pool = .ok read ∧
      (∀ {a b p q}, place a = some p → place b = some q → (a < b ↔ p < q)) ∧
      List.Forall₂ (Instruction.ReadsAs (weaver.instrument method pool store).pool place)
        woven.stream read ∧
      moved.maxLocals = body.maxLocals ∧ moved.maxStack.toNat = body.maxStack.toNat + 1 := by
  -- From here on nothing depends on how the stages were run, only on what each of them left.
  obtain ⟨stages⟩ := nonempty_stages hok hreplaced
  have hbody := stages.ofBytes_stored hbuilt.sound
  obtain ⟨read, place, hstream, hplace, hread⟩ := stages.output_readsAs hbuilt.sound
  exact ⟨stages.code, stages.body, stages.stream, stages.woven, stages.stored, stages.output, read,
    place, stages.code_eq, stages.body_eq, stages.stream_eq, stages.woven_eq, stages.result_eq.1,
    hbody, hstream, hplace, hread, stages.moved_eq.maxLocals, stages.maxStack_output⟩

/-! ## A method that compares two strings -/

open Pool

def equalsSource : MethodSource where
  className := "p/Loop"
  name := "run"
  descriptor := "()V"
  access := { bits := 9 }
  code := some [0, 4, 0, 2, 0, 0, 0, 6, 0x2A, 0x2B, 0xB6, 0, 6, 0xAC, 0, 0, 0, 0]

def equalsBody : MethodBody where
  maxStack := 4
  maxLocals := 2
  code := [0x2A, 0x2B, 0xB6, 0, 6, 0xAC]
  handlers := []
  attributes := []

/-- What is read from the method: two pushes, the call and a return. -/
def equalsStream : List Instruction :=
  [.simple 0x2A, .simple 0x2B, .invoke (equalsCall (some 6)), .simple 0xAC]

def templateText : String := "MethodReplacement_at_p.Loop_00000_0"

def substituteText : String := "(Ljava/lang/String;Ljava/lang/Object;Ljava/lang/String;)Z"

def substitute : MemberRef where
  owner := "probe/Substitutes"
  name := "equals"
  descriptor := substituteText
  isInterface := false

def substituteCall : Instruction :=
  .invoke (.new .static "probe/Substitutes" "equals" substituteText)

def wovenEquals : WovenMethod where
  stream := [.simple 0x2A, .simple 0x2B, .loadString templateText, substituteCall, .simple 0xAC]
  maxStack := 5
  substituted := 1

/-- The pool of the method, with nothing but its call. -/
def poolOfEquals : Pool :=
  (((((Pool.new.append (.utf8 "java/lang/String")).append (.classRef 1)).append
    (.utf8 "equals")).append (.utf8 "(Ljava/lang/Object;)Z")).append (.nameAndType 3 4)).append
    (.member .method 2 5)

def poolOfTemplate : Pool := (poolOfEquals.append (.utf8 templateText)).append (.string 7)

def poolOfSubstitute : Pool :=
  ((((poolOfTemplate.append (.utf8 "probe/Substitutes")).append (.classRef 9)).append
    (.utf8 substituteText)).append (.nameAndType 3 11)).append (.member .method 10 12)

theorem addMethodRef_equals :
    addMethodRef (equalsCall none).member Pool.new = (.ok 6, poolOfEquals) := by
  have hclass : addClass "java/lang/String" Pool.new = (.ok 2, _) :=
    Edit.bind_eq_ok_iff.2 ⟨1, _,
      add_of_fresh (by simp [lookup_new]) (by decide) (by decide),
      add_of_fresh (by simp [lookup_append, lookup_new]) (by decide) (by decide)⟩
  have hsignature : addNameAndType "equals" "(Ljava/lang/Object;)Z"
      ((Pool.new.append (.utf8 "java/lang/String")).append (.classRef 1)) = (.ok 5, _) :=
    Edit.bind_eq_ok_iff.2 ⟨3, _,
      add_of_fresh (by simp [lookup_append, lookup_new]) (by decide) (by decide),
      Edit.bind_eq_ok_iff.2 ⟨4, _,
        add_of_fresh (by simp [lookup_append, lookup_new]) (by decide) (by decide),
        add_of_fresh (by simp [lookup_append, lookup_new]) (by decide) (by decide)⟩⟩
  exact Edit.bind_eq_ok_iff.2 ⟨2, _, hclass, Edit.bind_eq_ok_iff.2 ⟨5, _, hsignature,
    add_of_fresh (by simp [lookup_append, lookup_new, equalsCall, Call.new, Call.member])
      (by decide) (by decide)⟩⟩

theorem addString_template : addString templateText poolOfEquals = (.ok 8, poolOfTemplate) :=
  Edit.bind_eq_ok_iff.2 ⟨7, _,
    add_of_fresh (by simp [lookup_append, lookup_new, poolOfEquals, templateText])
      (by decide) (by decide),
    add_of_fresh (by simp [lookup_append, lookup_new, poolOfEquals]) (by decide) (by decide)⟩

theorem addMethodRef_substitute :
    addMethodRef substitute poolOfTemplate = (.ok 13, poolOfSubstitute) := by
  have hclass : addClass "probe/Substitutes" poolOfTemplate = (.ok 10, _) :=
    Edit.bind_eq_ok_iff.2 ⟨9, _,
      add_of_fresh
        (by simp [lookup_append, lookup_new, poolOfTemplate, poolOfEquals, templateText])
        (by decide) (by decide),
      add_of_fresh (by simp [lookup_append, lookup_new, poolOfTemplate, poolOfEquals])
        (by decide) (by decide)⟩
  have hname : addText "equals"
      ((poolOfTemplate.append (.utf8 "probe/Substitutes")).append (.classRef 9)) =
      (.ok 3, (poolOfTemplate.append (.utf8 "probe/Substitutes")).append (.classRef 9)) := by
    apply add_of_present
    simp only [lookup_append, lookup_new, poolOfTemplate, poolOfEquals,
      Std.HashMap.getElem?_insertIfNew]
    simp [Std.HashMap.mem_insertIfNew, templateText]
    decide
  have hsignature : addNameAndType "equals" substituteText
      ((poolOfTemplate.append (.utf8 "probe/Substitutes")).append (.classRef 9)) = (.ok 12, _) :=
    Edit.bind_eq_ok_iff.2 ⟨3, _, hname, Edit.bind_eq_ok_iff.2 ⟨11, _,
      add_of_fresh
        (by simp [lookup_append, lookup_new, poolOfTemplate, poolOfEquals, templateText,
          substituteText])
        (by decide) (by decide),
      add_of_fresh (by simp [lookup_append, lookup_new, poolOfTemplate, poolOfEquals])
        (by decide) (by decide)⟩⟩
  exact Edit.bind_eq_ok_iff.2 ⟨10, _, hclass, Edit.bind_eq_ok_iff.2 ⟨12, _, hsignature,
    add_of_fresh (by simp [lookup_append, lookup_new, poolOfTemplate, poolOfEquals, substitute])
      (by decide) (by decide)⟩⟩

theorem weave_equalsStream :
    (equalsWeaver.weave loopMethod equalsStream).outcome = .ok wovenEquals := by
  have htemplate : Objective.template "p/Loop" 0 0 = templateText := by cbv
  have htext : equalsCandidate.descriptor.text = substituteText := by cbv
  have hwoven : (equalsWeaver.weave loopMethod equalsStream).outcome = .ok
      { wovenEquals with
        stream := [.simple 0x2A, .simple 0x2B, .loadString (Objective.template "p/Loop" 0 0),
          .invoke (.new .static "probe/Substitutes" "equals" equalsCandidate.descriptor.text),
          .simple 0xAC] } := by
    simp only [weave, weaveFrom, equalsStream, select_equalsCall]
    rfl
  rw [hwoven, htemplate, htext]
  rfl

def encodedEquals : EncodedCode where
  code := [0x2A, 0x2B, 0x12, 8, 0xB8, 0, 13, 0xAC]
  offsets := ∅

def storedMethod : InstrumentedMethod where
  name := "run"
  descriptor := "()V"
  code := some [0, 5, 0, 2, 0, 0, 0, 8, 0x2A, 0x2B, 0x12, 8, 0xB8, 0, 13, 0xAC, 0, 0, 0, 0]
  substituted := 1

theorem place_template {layout : Layout} (hroom : layout.length + 2 ≤ maxCodeLength) :
    layout.place (.loadString templateText) poolOfEquals =
      (.ok { placed := ⟨.loadString templateText, layout.length, 8⟩ :: layout.placed
             labels := layout.labels, length := layout.length + 2 }, poolOfTemplate) := by
  refine Edit.bind_eq_ok_iff.2 ⟨8, _, addString_template, ?_⟩
  have hsize : (Instruction.loadString templateText).size layout.length 8 = 2 := rfl
  simp [Layout.labelsWith, hsize, Nat.not_lt.2 hroom]
  rfl

theorem place_substitute {layout : Layout} (hroom : layout.length + 3 ≤ maxCodeLength) :
    layout.place substituteCall poolOfTemplate =
      (.ok { placed := ⟨substituteCall, layout.length, 13⟩ :: layout.placed
             labels := layout.labels, length := layout.length + 3 }, poolOfSubstitute) := by
  refine Edit.bind_eq_ok_iff.2 ⟨13, _, addMethodRef_substitute, ?_⟩
  have hsize : substituteCall.size layout.length 13 = 3 := rfl
  have hlabels : layout.labelsWith substituteCall = .ok layout.labels := rfl
  simp [hlabels, hsize, Nat.not_lt.2 hroom]
  rfl

theorem encodeStream_wovenEquals :
    encodeStream wovenEquals.stream poolOfEquals = (.ok encodedEquals, poolOfSubstitute) := by
  have hlayout : Layout.ofStream wovenEquals.stream poolOfEquals =
      (.ok { placed := [⟨.simple 0xAC, 7, 0⟩, ⟨substituteCall, 4, 13⟩,
               ⟨.loadString templateText, 2, 8⟩, ⟨.simple 0x2B, 1, 0⟩, ⟨.simple 0x2A, 0, 0⟩],
             length := 8 }, poolOfSubstitute) :=
    Edit.bind_eq_ok_iff.2 ⟨_, _, rfl, Edit.bind_eq_ok_iff.2 ⟨_, _, rfl,
      Edit.bind_eq_ok_iff.2 ⟨_, _, place_template (by decide),
        Edit.bind_eq_ok_iff.2 ⟨_, _, place_substitute (by decide), rfl⟩⟩⟩⟩
  exact Edit.bind_eq_ok_iff.2 ⟨_, _, hlayout, rfl⟩

theorem encode_equalsSource :
    (equalsSource.encode ⟨equalsBody, wovenEquals⟩ poolOfEquals).outcome = .ok storedMethod := by
  simp only [MethodSource.encode, encodeStream_wovenEquals]
  rfl

theorem instrument_equalsSource (store : ObjectiveStore) :
    (equalsWeaver.instrument equalsSource poolOfEquals store).outcome = .ok storedMethod := by
  have hread : equalsSource.read poolOfEquals = .ok (some (equalsBody, equalsStream)) := rfl
  exact instrument_of_encode hread weave_equalsStream Nat.one_ne_zero encode_equalsSource

theorem poolOfEquals_built : poolOfEquals.Built := by
  have h := Built.add .new (.methodRef (equalsCall none).member)
  rwa [Addition.edit, addMethodRef_equals] at h

theorem equalsSource_reads_back :
    poolOfEquals.Built ∧
      (equalsWeaver.instrument equalsSource poolOfEquals .empty).outcome = .ok storedMethod ∧
      0 < storedMethod.substituted ∧
      ∃ code body stream woven stored moved read, ∃ place : Label → Option Nat,
        equalsSource.code = some code ∧ MethodBody.ofBytes poolOfEquals code = .ok body ∧
        body.stream poolOfEquals = .ok stream ∧
        (equalsWeaver.weave (equalsSource.context body.maxStack) stream).outcome = .ok woven ∧
        storedMethod.code = some stored ∧
        MethodBody.ofBytes (equalsWeaver.instrument equalsSource poolOfEquals .empty).pool stored =
          .ok moved ∧
        moved.stream (equalsWeaver.instrument equalsSource poolOfEquals .empty).pool = .ok read ∧
        (∀ {a b p q}, place a = some p → place b = some q → (a < b ↔ p < q)) ∧
        List.Forall₂ (Instruction.ReadsAs
          (equalsWeaver.instrument equalsSource poolOfEquals .empty).pool place) woven.stream read ∧
        moved.maxLocals = body.maxLocals ∧ moved.maxStack.toNat = body.maxStack.toNat + 1 := by
  exact ⟨poolOfEquals_built, instrument_equalsSource .empty, Nat.one_pos,
    instrument_reads_back poolOfEquals_built (instrument_equalsSource .empty) Nat.one_pos⟩

end Weaver

end CallProbe
