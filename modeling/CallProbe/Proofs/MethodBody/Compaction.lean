import CallProbe.Proofs.MethodBody.Growth
import CallProbe.Proofs.StackMap.Compaction

/-!
# Method bodies are stored in their shortest form

Stack maps are all that a stored body leaves open. A body that was read is written, and read back,
with the short forms of their frames in place of the long ones and without any other difference.
-/

namespace CallProbe

open Reader Cursor

variable {c d : Cursor} {pool : Pool}

/-! ## Nested attributes -/

namespace NestedAttribute

/-- The stack map frames in the content that an attribute has under a name, each as it is stored. -/
def framesOfContent (pool : Pool) (name : UInt16) (content : Bytes) :
    Except Fault (List Bytes) := do
  match ← pool.text name with
  | "StackMapTable" => StackMap.storedFrames content
  | _ => return []

/-- Moves over an attribute for the sake of its stack map frames. -/
def frameReader (pool : Pool) : Reader (List Bytes) := do
  let name ← Reader.u16
  let content ← Reader.take (← Reader.u32).toNat
  framesOfContent pool name content

theorem framesOfContent_of_ne {name : UInt16} {content : Bytes} {text : String}
    (h : pool.text name = .ok text) (hne : text ≠ "StackMapTable") :
    framesOfContent pool name content = .ok [] := by
  unfold framesOfContent
  rw [h]
  change (match text with
    | "StackMapTable" => StackMap.storedFrames content
    | _ => pure []) = Except.ok []
  split
  · exact absurd rfl hne
  · rfl

theorem exists_compacts_content {name : UInt16} {content : Bytes} {nested : NestedAttribute}
    (h : ofContent pool name content = .ok nested) : ∃ stored frames,
    nested.encodeContent = .ok stored ∧ framesOfContent pool name content = .ok frames ∧
      Compacts (frames.countP FrameKind.usesLongForm) content stored := by
  have hstored := storedAs_of_ofContent h
  obtain ⟨rfl, hstorable⟩ := storable_of_ofContent h
  cases nested with
  | lineNumbers name marks =>
      exact ⟨content, [], hstored, framesOfContent_of_ne hstorable (by decide), .refl _⟩
  | localVariables table name ranges =>
      exact ⟨content, [], hstored, framesOfContent_of_ne hstorable (by cases table <;> decide),
        .refl _⟩
  | stackMap name frames =>
      obtain ⟨stored, slices, hencode, hslices, hcompacts⟩ := StackMap.exists_compacts hstored
      refine ⟨stored, slices, hencode, ?_, hcompacts⟩
      unfold framesOfContent
      exact Outcome.bind_eq_ok_iff.2 ⟨_, hstorable.1, hslices⟩
  | unknown name data =>
      rcases hstorable with ⟨text, htext, hnew⟩
      cases hstored
      refine ⟨content, [], rfl, framesOfContent_of_ne htext ?_, .refl _⟩
      rintro rfl
      exact hnew (by decide)

/-- A shorter content stands behind a smaller length, which takes up as much room. -/
theorem compacts_of_content {n : Nat} {content stored : Bytes} (h : Compacts n content stored)
    (name : UInt16) : Compacts n
      (bytes16 name ++ bytes32 (UInt32.ofNat content.length) ++ content)
      (bytes16 name ++ bytes32 (UInt32.ofNat stored.length) ++ stored) := by
  constructor
  · have hlength := h.length
    simp only [List.length_append, length_bytes16, length_bytes32]
    omega
  · intro hnone
    rw [h.eq_of_none hnone]

theorem exists_compacts {nested : NestedAttribute} (h : reader pool c = .ok (nested, d)) :
    ∃ data stored frames, c.Passes data d ∧ nested.encode = .ok stored ∧
      frameReader pool c = .ok (frames, d) ∧
      Compacts (frames.countP FrameKind.usesLongForm) data stored := by
  obtain ⟨content, hlength, hpasses, hread⟩ := reader_eq_ok_iff.1 h
  obtain ⟨stored, frames, hstored, hframes, hcompacts⟩ := exists_compacts_content hread
  have hshorter := hcompacts.length
  refine ⟨_, _, frames, hpasses, encode_eq_ok_iff.2 ⟨stored, hstored, by omega, rfl⟩, ?_,
    compacts_of_content hcompacts _⟩
  simp only [passes_append_iff] at hpasses
  rcases hpasses with ⟨m', ⟨m, hname, hcount⟩, hcontent⟩
  have hback : (UInt32.ofNat content.length).toNat = content.length :=
    UInt32.toNat_ofNat_of_lt' (Nat.lt_succ_of_le hlength)
  unfold frameReader
  simp only [Reader.bind_eq_ok_iff, u16_eq_ok_iff, u32_eq_ok_iff, take_eq_ok_iff, lift_eq_ok_iff]
  exact ⟨_, m, hname, _, m', hcount, content, d, ⟨hback.symm, hcontent⟩, hframes, rfl⟩

theorem exists_compacts_all {attributes : List NestedAttribute}
    (h : (reader pool).Yields c attributes d) : ∃ data stored frames, c.Passes data d ∧
      attributes.mapM encode = .ok stored ∧ frames.length = attributes.length ∧
      (frameReader pool).Yields c frames d ∧
      Compacts (frames.flatten.countP FrameKind.usesLongForm) data stored.flatten := by
  induction attributes generalizing c with
  | nil => exact ⟨[], [], [], passes_nil_iff.2 h, rfl, rfl, h, .refl _⟩
  | cons nested rest ih =>
      rcases h with ⟨m, hnested, hrest⟩
      obtain ⟨first, bytes, found, hfirst, hbytes, hfound, hshort⟩ := exists_compacts hnested
      obtain ⟨data, stored, frames, hdata, hstored, hlength, hframes, hcompacts⟩ := ih hrest
      refine ⟨first ++ data, bytes :: stored, found :: frames, hfirst.trans hdata, ?_,
        congrArg Nat.succ hlength, ⟨m, hfound, hframes⟩, ?_⟩
      · rw [Outcome.mapM_eq_ok_iff] at hstored ⊢
        exact .cons hbytes hstored
      · rw [List.flatten_cons, List.flatten_cons, List.countP_append]
        exact hshort.append hcompacts

end NestedAttribute

/-! ## Bodies -/

namespace MethodBody

/-- Moves over a method body for the sake of its stack map frames. -/
def frameReader (pool : Pool) : Reader (List Bytes) := do
  let _ ← Reader.u16
  let _ ← Reader.u16
  let _ ← Reader.take (← Reader.u32).toNat
  let _ ← tableReader Handler.reader
  return (← tableReader (NestedAttribute.frameReader pool)).flatten

/-- The frames of all stack maps in a stored method body, each as it is stored. -/
def storedFrames (pool : Pool) (data : Bytes) : Except Fault (List Bytes) :=
  (frameReader pool).read data

/-- A method body that was read can be written. What is written is read as the same body; it is two
bytes shorter for each frame that was stored in a long form without need, and the same without
any. -/
theorem stored_form_compacts {data : Bytes} {body : MethodBody}
    (h : ofBytes pool data = .ok body) : ∃ stored frames,
    body.encode = .ok stored ∧ ofBytes pool stored = .ok body ∧
      storedFrames pool data = .ok frames ∧
      stored.length + 2 * frames.countP FrameKind.usesLongForm = data.length ∧
      (stored = data ↔ ∀ frame ∈ frames, FrameKind.usesLongForm frame = false) := by
  obtain ⟨d, hread⟩ := Reader.read_eq_ok_iff.1 h
  obtain ⟨-, hlength, handlers, m, hhandlers, hfront, htable, hend⟩ := reader_eq_ok_iff.1 hread
  obtain ⟨hcount, m', hcounted, hyields⟩ := tableReader_eq_ok_iff.1 htable
  obtain ⟨tail, stored, frames, htail, hstored, hsame, hframes, hcompacts⟩ :=
    NestedAttribute.exists_compacts_all hyields
  have hfits : body.code.length ≤ maxContentLength := by
    unfold maxCodeLength at hlength
    unfold maxContentLength
    omega
  have hencode := encode_eq_ok_iff.2 ⟨hfits, hcount, handlers, stored, hhandlers, hstored, rfl⟩
  have hdata := ((hfront.trans hcounted).trans htail).ahead
  rw [hend, List.append_nil] at hdata
  change data = _ at hdata
  have hall := hcompacts.behind
    (bytes16 body.maxStack ++ bytes16 body.maxLocals ++ bytes32 (UInt32.ofNat body.code.length)
      ++ body.code ++ handlers ++ bytes16 (UInt16.ofNat body.attributes.length))
  rw [← hdata] at hall
  refine ⟨_, frames.flatten, hencode, ofBytes_encode (storable_of_ofBytes h) hencode, ?_,
    hall.length, hall.eq_iff.trans ?_⟩
  · simp only [passes_append_iff] at hfront
    rcases hfront with ⟨m₄, ⟨m₃, ⟨m₂, ⟨m₁, hstack, hlocals⟩, hsize⟩, hcode⟩, hfront⟩
    have hback : (UInt32.ofNat body.code.length).toNat = body.code.length :=
      UInt32.toNat_ofNat_of_lt' (Nat.lt_succ_of_le hfits)
    refine Reader.read_eq_ok_iff.2 ⟨d, ?_⟩
    unfold frameReader
    simp only [Reader.bind_eq_ok_iff, u16_eq_ok_iff, u32_eq_ok_iff, take_eq_ok_iff,
      Handler.reader_inverts.tableReader_eq_ok_iff, Reader.pure_eq_ok_iff]
    exact ⟨_, m₁, hstack, _, m₂, hlocals, _, m₃, hsize, _, m₄, ⟨hback.symm, hcode⟩, _, m,
      ⟨handlers, hhandlers, hfront⟩, frames, d,
      tableReader_eq_ok_iff.2 ⟨hsame ▸ hcount, m', hsame ▸ hcounted, hframes⟩, rfl, rfl⟩
  · rw [List.countP_eq_zero]
    simp only [Bool.not_eq_true]

/-- A pool with the name of stack maps, and a stored body with a frame in the long form at offset
one. -/
def framePool : Pool := Pool.new.append (.utf8 "StackMapTable")

def longFrameData : Bytes :=
  [0, 0, 0, 0, 0, 0, 0, 2, 0, 0xB1, 0, 0, 0, 1, 0, 1, 0, 0, 0, 5, 0, 1, 251, 0, 1]

def framedBody : MethodBody :=
  { maxStack := 0, maxLocals := 0, code := [0, 0xB1], handlers := []
    attributes := [.stackMap 1 [{ offset := 1, kind := .same }]] }

theorem framedBody_compacts : ofBytes framePool longFrameData = .ok framedBody ∧
    storedFrames framePool longFrameData = .ok [[251, 0, 1]] ∧ ∃ stored,
    framedBody.encode = .ok stored ∧ ofBytes framePool stored = .ok framedBody ∧
      stored.length + 2 = longFrameData.length := by
  have hread : ofBytes framePool longFrameData = .ok framedBody := by decide +kernel
  obtain ⟨stored, frames, hencode, hback, hframes, hlength, -⟩ := stored_form_compacts hread
  have hfound : storedFrames framePool longFrameData = .ok [[251, 0, 1]] := by decide +kernel
  rw [hfound] at hframes
  cases hframes
  exact ⟨hread, hfound, stored, hencode, hback, hlength⟩

end MethodBody

end CallProbe
