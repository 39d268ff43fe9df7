import CallProbe.MethodBody.Codec
import CallProbe.Proofs.Pool.Symbols
import CallProbe.Proofs.StackMap.Storage

/-!
# Stored method bodies are read back

Tables have one stored form, and so has everything around them; only stack maps have
several. A body that was read can be written, and what was written is read back, also
against a pool that has grown.
-/

namespace CallProbe

open Cursor

variable {c d : Cursor} {pool later : Pool}

/-! ## Tables -/

section Table

variable {α : Type} {reader : Reader α} {encode : α → Bytes} {items : List α}

theorem encodeTable_eq_ok_iff {stored : Bytes} :
    encodeTable encode items = .ok stored ↔ items.length ≤ maxTableLength ∧
      stored = bytes16 (UInt16.ofNat items.length) ++ items.flatMap encode := by
  unfold encodeTable tableCount
  by_cases hlength : items.length ≤ maxTableLength
  · simp [hlength, eq_comm]
  · simp [hlength]

theorem tableReader_eq_ok_iff : tableReader reader c = .ok (items, d) ↔
    items.length ≤ maxTableLength ∧
      ∃ m, c.Passes (bytes16 (UInt16.ofNat items.length)) m ∧ reader.Yields m items d := by
  unfold tableReader
  simp only [Reader.bind_eq_ok_iff, Reader.u16_eq_ok_iff, Reader.many_eq_ok_iff]
  constructor
  · intro h
    rcases h with ⟨count, m, hcount, hlength, hyields⟩
    have hlt : count.toNat < 65536 := count.toNat_lt
    rw [hlength, UInt16.ofNat_toNat]
    refine ⟨?_, m, hcount, hyields⟩
    unfold maxTableLength
    omega
  · intro h
    rcases h with ⟨hlength, m, hcount, hyields⟩
    have hback : (UInt16.ofNat items.length).toNat = items.length :=
      UInt16.toNat_ofNat_of_lt' (Nat.lt_succ_of_le hlength)
    exact ⟨_, m, hcount, hback.symm, hyields⟩

/-- A table is read from what is written for it, and from nothing else. -/
theorem Reader.Inverts.tableReader_eq_ok_iff (h : reader.Inverts encode) :
    tableReader reader c = .ok (items, d) ↔
      ∃ stored, encodeTable encode items = .ok stored ∧ c.Passes stored d := by
  rw [CallProbe.tableReader_eq_ok_iff]
  simp only [h.yields_iff, ← passes_append_iff, encodeTable_eq_ok_iff]
  constructor
  · intro h
    exact ⟨_, ⟨h.1, rfl⟩, h.2⟩
  · intro h
    rcases h with ⟨_, ⟨hlength, rfl⟩, hpasses⟩
    exact ⟨hlength, hpasses⟩

end Table

theorem Handler.reader_inverts : reader.Inverts encode := by
  intro c handler d
  simp only [reader, encode, Reader.bind_eq_ok_iff, Reader.u16_eq_ok_iff, Reader.pure_eq_ok_iff,
    passes_append_iff]
  constructor
  · intro h
    rcases h with ⟨_, _, hstart, _, _, hstop, _, _, htarget, _, _, htype, rfl, rfl⟩
    exact ⟨_, ⟨_, ⟨_, hstart, hstop⟩, htarget⟩, htype⟩
  · intro h
    rcases h with ⟨_, ⟨_, ⟨_, hstart, hstop⟩, htarget⟩, htype⟩
    exact ⟨_, _, hstart, _, _, hstop, _, _, htarget, _, _, htype, rfl, rfl⟩

theorem LineMark.reader_inverts : reader.Inverts encode := by
  intro c mark d
  simp only [reader, encode, Reader.bind_eq_ok_iff, Reader.u16_eq_ok_iff, Reader.pure_eq_ok_iff,
    passes_append_iff]
  constructor
  · intro h
    rcases h with ⟨_, _, hstart, _, _, hline, rfl, rfl⟩
    exact ⟨_, hstart, hline⟩
  · intro h
    rcases h with ⟨_, hstart, hline⟩
    exact ⟨_, _, hstart, _, _, hline, rfl, rfl⟩

theorem VariableRange.reader_inverts : reader.Inverts encode := by
  intro c range d
  simp only [reader, encode, Reader.bind_eq_ok_iff, Reader.u16_eq_ok_iff, Reader.pure_eq_ok_iff,
    passes_append_iff]
  constructor
  · intro h
    rcases h with ⟨_, _, hstart, _, _, hlength, _, _, hname, _, _, hdescriptor, _, _, hslot, rfl,
      rfl⟩
    exact ⟨_, ⟨_, ⟨_, ⟨_, hstart, hlength⟩, hname⟩, hdescriptor⟩, hslot⟩
  · intro h
    rcases h with ⟨_, ⟨_, ⟨_, ⟨_, hstart, hlength⟩, hname⟩, hdescriptor⟩, hslot⟩
    exact ⟨_, _, hstart, _, _, hlength, _, _, hname, _, _, hdescriptor, _, _, hslot, rfl, rfl⟩

/-! ## Nested attributes -/

namespace NestedAttribute

/-- The names of the attributes whose content is known. -/
def knownNames : List String :=
  ["LineNumberTable", "LocalVariableTable", "LocalVariableTypeTable", "StackMapTable"]

/-- An attribute whose name in the pool tells its kind, with content that has a stored form. -/
def Storable (pool : Pool) : NestedAttribute → Prop
  | lineNumbers name _ => pool.text name = .ok "LineNumberTable"
  | localVariables table name _ => pool.text name = .ok table.name
  | stackMap name frames => pool.text name = .ok "StackMapTable" ∧
    ∀ frame ∈ frames, frame.kind.Storable
  | unknown name _ => ∃ text, pool.text name = .ok text ∧ text ∉ knownNames

theorem Storable.extends {nested : NestedAttribute} (h : nested.Storable pool)
    (hext : later.Extends pool) : nested.Storable later := by
  cases nested with
  | lineNumbers name marks => exact hext.text h
  | localVariables table name ranges => exact hext.text h
  | stackMap name frames => exact ⟨hext.text h.1, h.2⟩
  | unknown name data =>
      rcases h with ⟨text, htext, hnew⟩
      exact ⟨text, hext.text htext, hnew⟩

theorem tableOfBytes_eq_ok_iff {α : Type} {reader : Reader α} {encode : α → Bytes}
    (h : reader.Inverts encode) {name : String} {content : Bytes} {items : List α} :
    tableOfBytes reader name content = .ok items ↔ encodeTable encode items = .ok content := by
  unfold tableOfBytes
  simp only [Reader.read_eq_ok_iff, Reader.bind_eq_ok_iff, h.tableReader_eq_ok_iff,
    Reader.finish_eq_ok_iff, Reader.pure_eq_ok_iff]
  constructor
  · intro h
    rcases h with ⟨_, _, d, ⟨stored, hstored, hpasses⟩, _, _, ⟨hend, rfl⟩, rfl, rfl⟩
    have hcontent : content = stored ++ _ := hpasses.ahead
    rw [hend, List.append_nil] at hcontent
    rw [hcontent]
    exact hstored
  · intro hstored
    obtain ⟨d, hpasses, hend⟩ := passes_skip (Cursor.ofBytes content) content [] (by simp [ofBytes])
    exact ⟨d, items, d, ⟨content, hstored, hpasses⟩, (), d, ⟨hend, rfl⟩, rfl, rfl⟩

/-- What is read under a name has this name, and can be written. -/
theorem storable_of_ofContent {name : UInt16} {content : Bytes} {nested : NestedAttribute}
    (h : ofContent pool name content = .ok nested) : nested.name = name ∧ nested.Storable pool := by
  unfold ofContent at h
  obtain ⟨text, htext, h⟩ := Outcome.bind_eq_ok_iff.1 h
  split at h
  · obtain ⟨marks, -, h⟩ := Outcome.bind_eq_ok_iff.1 h
    rw [Outcome.pure_eq_ok_iff] at h
    subst h
    exact ⟨rfl, htext⟩
  · obtain ⟨ranges, -, h⟩ := Outcome.bind_eq_ok_iff.1 h
    rw [Outcome.pure_eq_ok_iff] at h
    subst h
    exact ⟨rfl, htext⟩
  · obtain ⟨ranges, -, h⟩ := Outcome.bind_eq_ok_iff.1 h
    rw [Outcome.pure_eq_ok_iff] at h
    subst h
    exact ⟨rfl, htext⟩
  · obtain ⟨frames, hframes, h⟩ := Outcome.bind_eq_ok_iff.1 h
    rw [Outcome.pure_eq_ok_iff] at h
    subst h
    exact ⟨rfl, htext, (StackMap.storable_of_ofBytes hframes).2⟩
  · rename_i hline hvariable htype hframes
    rw [Outcome.pure_eq_ok_iff] at h
    subst h
    refine ⟨rfl, text, htext, ?_⟩
    simp only [knownNames, List.mem_cons, List.not_mem_nil, or_false, not_or]
    exact ⟨hline, hvariable, htype, hframes⟩

theorem ofContent_extends {name : UInt16} {content : Bytes} {nested : NestedAttribute}
    (h : ofContent pool name content = .ok nested) (hext : later.Extends pool) :
    ofContent later name content = .ok nested := by
  unfold ofContent at h ⊢
  obtain ⟨text, htext, h⟩ := Outcome.bind_eq_ok_iff.1 h
  exact Outcome.bind_eq_ok_iff.2 ⟨text, hext.text htext, h⟩

/-- What was written under the name of its kind is read back. -/
theorem ofContent_encodeContent {nested : NestedAttribute} {content : Bytes}
    (hstorable : nested.Storable pool) (h : nested.encodeContent = .ok content) :
    ofContent pool nested.name content = .ok nested := by
  unfold ofContent
  rw [Outcome.bind_eq_ok_iff]
  cases nested with
  | lineNumbers name marks =>
      refine ⟨_, hstorable, Outcome.bind_eq_ok_iff.2 ⟨marks, ?_, rfl⟩⟩
      exact (tableOfBytes_eq_ok_iff LineMark.reader_inverts).2 h
  | localVariables table name ranges =>
      refine ⟨_, hstorable, ?_⟩
      cases table <;>
        exact Outcome.bind_eq_ok_iff.2
          ⟨ranges, (tableOfBytes_eq_ok_iff VariableRange.reader_inverts).2 h, rfl⟩
  | stackMap name frames =>
      rcases hstorable with ⟨htext, hframes⟩
      refine ⟨_, htext, Outcome.bind_eq_ok_iff.2 ⟨frames, ?_, rfl⟩⟩
      exact StackMap.ofBytes_encode hframes h
  | unknown name data =>
      rcases hstorable with ⟨text, htext, hnew⟩
      cases h
      refine ⟨text, htext, ?_⟩
      simp only [knownNames, List.mem_cons, List.not_mem_nil, or_false, not_or] at hnew
      split <;> simp_all [NestedAttribute.name]

theorem encode_eq_ok_iff {nested : NestedAttribute} {stored : Bytes} :
    nested.encode = .ok stored ↔ ∃ content, nested.encodeContent = .ok content ∧
      content.length ≤ maxContentLength ∧
      stored = bytes16 nested.name ++ bytes32 (UInt32.ofNat content.length) ++ content := by
  unfold encode
  simp only [Outcome.bind_eq_ok_iff]
  refine exists_congr fun content => and_congr_right fun _ => ?_
  by_cases hlength : maxContentLength < content.length
  · simp [hlength, Nat.not_le.2 hlength, Outcome.fmap_eq_ok_iff]
  · simp [hlength, Nat.le_of_not_lt hlength]

theorem reader_eq_ok_iff {nested : NestedAttribute} : reader pool c = .ok (nested, d) ↔
    ∃ content, content.length ≤ maxContentLength ∧
      c.Passes (bytes16 nested.name ++ bytes32 (UInt32.ofNat content.length) ++ content) d ∧
      ofContent pool nested.name content = .ok nested := by
  unfold reader
  simp only [Reader.bind_eq_ok_iff, Reader.u16_eq_ok_iff, Reader.u32_eq_ok_iff,
    Reader.take_eq_ok_iff, Reader.lift_eq_ok_iff]
  constructor
  · intro h
    rcases h with ⟨name, m, hname, length, m', hlength, content, _, ⟨hcontent, hpasses⟩, hread, rfl⟩
    obtain ⟨rfl, -⟩ := storable_of_ofContent hread
    have hlt : length.toNat < 4294967296 := length.toNat_lt
    refine ⟨content, ?_, ?_, hread⟩
    · unfold maxContentLength
      omega
    · rw [hcontent, UInt32.ofNat_toNat]
      exact (hname.trans hlength).trans hpasses
  · intro h
    rcases h with ⟨content, hcontent, hpasses, hread⟩
    simp only [passes_append_iff] at hpasses
    rcases hpasses with ⟨m', ⟨m, hname, hlength⟩, hpasses⟩
    have hback : (UInt32.ofNat content.length).toNat = content.length :=
      UInt32.toNat_ofNat_of_lt' (Nat.lt_succ_of_le hcontent)
    exact ⟨_, m, hname, _, m', hlength, content, d, ⟨hback.symm, hpasses⟩, hread, rfl⟩

theorem yields_of_encode {attributes : List NestedAttribute} {stored : List Bytes}
    (hstorable : ∀ nested ∈ attributes, nested.Storable pool)
    (h : attributes.mapM encode = .ok stored) (hpasses : c.Passes stored.flatten d) :
    (reader pool).Yields c attributes d := by
  rw [Outcome.mapM_eq_ok_iff] at h
  induction h generalizing c with
  | nil => exact passes_nil_iff.1 hpasses
  | @cons nested bytes rest others hnested _ ih =>
      obtain ⟨hhead, hrest⟩ := List.forall_mem_cons.1 hstorable
      rw [List.flatten_cons, passes_append_iff] at hpasses
      rcases hpasses with ⟨m, hbytes, hothers⟩
      obtain ⟨content, hcontent, hlength, rfl⟩ := encode_eq_ok_iff.1 hnested
      exact ⟨m, reader_eq_ok_iff.2
        ⟨content, hlength, hbytes, ofContent_encodeContent hhead hcontent⟩,
        ih hrest hothers⟩

theorem yields_extends {attributes : List NestedAttribute}
    (h : (reader pool).Yields c attributes d) (hext : later.Extends pool) :
    (reader later).Yields c attributes d := by
  induction attributes generalizing c with
  | nil => exact h
  | cons nested rest ih =>
      rcases h with ⟨m, hhead, hrest⟩
      obtain ⟨content, hlength, hpasses, hread⟩ := reader_eq_ok_iff.1 hhead
      exact ⟨m, reader_eq_ok_iff.2 ⟨content, hlength, hpasses, ofContent_extends hread hext⟩,
        ih hrest⟩

theorem storable_of_yields {attributes : List NestedAttribute}
    (h : (reader pool).Yields c attributes d) : ∀ nested ∈ attributes, nested.Storable pool := by
  induction attributes generalizing c with
  | nil => simp
  | cons nested rest ih =>
      rcases h with ⟨m, hhead, hrest⟩
      obtain ⟨content, -, -, hread⟩ := reader_eq_ok_iff.1 hhead
      exact List.forall_mem_cons.2 ⟨(storable_of_ofContent hread).2, ih hrest⟩

end NestedAttribute

/-! ## Bodies -/

namespace MethodBody

/-- A body with a code array of an allowed length and attributes that have a stored form. -/
structure Storable (pool : Pool) (body : MethodBody) : Prop where
  code_ne_nil : body.code ≠ []
  length_le : body.code.length ≤ maxCodeLength
  attributes : ∀ nested ∈ body.attributes, nested.Storable pool

theorem Storable.extends {body : MethodBody} (h : body.Storable pool) (hext : later.Extends pool) :
    body.Storable later :=
  ⟨h.code_ne_nil, h.length_le, fun nested hnested => (h.attributes nested hnested).extends hext⟩

theorem encode_eq_ok_iff {body : MethodBody} {data : Bytes} :
    body.encode = .ok data ↔ body.code.length ≤ maxContentLength ∧
      body.attributes.length ≤ maxTableLength ∧
      ∃ handlers attributes, encodeTable Handler.encode body.handlers = .ok handlers ∧
        body.attributes.mapM NestedAttribute.encode = .ok attributes ∧
        data = bytes16 body.maxStack ++ bytes16 body.maxLocals
          ++ bytes32 (UInt32.ofNat body.code.length) ++ body.code ++ handlers
          ++ bytes16 (UInt16.ofNat body.attributes.length) ++ attributes.flatten := by
  unfold encode tableCount
  by_cases hcode : maxContentLength < body.code.length
  · simp [hcode, Nat.not_le.2 hcode, Outcome.bind_eq_ok_iff]
  by_cases hcount : body.attributes.length ≤ maxTableLength
  · simp [hcode, Nat.le_of_not_lt hcode, hcount, Outcome.bind_eq_ok_iff, Outcome.fmap_eq_ok_iff]
  · simp [hcode, hcount, Outcome.bind_eq_ok_iff]

theorem reader_eq_ok_iff {body : MethodBody} : reader pool c = .ok (body, d) ↔
    body.code ≠ [] ∧ body.code.length ≤ maxCodeLength ∧
      ∃ handlers m, encodeTable Handler.encode body.handlers = .ok handlers ∧
        c.Passes (bytes16 body.maxStack ++ bytes16 body.maxLocals
          ++ bytes32 (UInt32.ofNat body.code.length) ++ body.code ++ handlers) m ∧
        tableReader (NestedAttribute.reader pool) m = .ok (body.attributes, d) ∧
        d.ahead = [] := by
  unfold reader
  simp only [Reader.bind_eq_ok_iff, Reader.u16_eq_ok_iff, Reader.u32_eq_ok_iff]
  constructor
  · intro h
    rcases h with ⟨maxStack, m₁, hstack, maxLocals, m₂, hlocals, length, m₃, hlength, h⟩
    split at h
    · simp [Reader.bind_eq_ok_iff] at h
    rename_i hrange
    simp only [Reader.bind_eq_ok_iff, Reader.take_eq_ok_iff,
      Handler.reader_inverts.tableReader_eq_ok_iff, Reader.finish_eq_ok_iff,
      Reader.pure_eq_ok_iff] at h
    rcases h with ⟨code, m₄, ⟨hcode, hbytes⟩, handlers, m₅, ⟨stored, hstored, hhandlers⟩,
      attributes, _, hattributes, _, _, ⟨hend, rfl⟩, rfl, rfl⟩
    have hle : code.length ≤ maxCodeLength := by omega
    refine ⟨?_, hle, stored, m₅, hstored, ?_, hattributes, hend⟩
    · rintro rfl
      exact hrange (.inl hcode.symm)
    · dsimp only
      rw [hcode, UInt32.ofNat_toNat]
      exact (((hstack.trans hlocals).trans hlength).trans hbytes).trans hhandlers
  · intro h
    rcases h with ⟨hne, hle, stored, m₅, hstored, hpasses, hattributes, hend⟩
    simp only [passes_append_iff] at hpasses
    rcases hpasses with ⟨m₄, ⟨m₃, ⟨m₂, ⟨m₁, hstack, hlocals⟩, hlength⟩, hbytes⟩, hhandlers⟩
    have hpos : 0 < body.code.length := List.length_pos_iff.2 hne
    have hback : (UInt32.ofNat body.code.length).toNat = body.code.length := by
      unfold maxCodeLength at hle
      exact UInt32.toNat_ofNat_of_lt' (show _ < 4294967296 by omega)
    refine ⟨_, m₁, hstack, _, m₂, hlocals, _, m₃, hlength, ?_⟩
    rw [hback, if_neg (by omega)]
    simp only [Reader.bind_eq_ok_iff, Reader.take_eq_ok_iff,
      Handler.reader_inverts.tableReader_eq_ok_iff, Reader.finish_eq_ok_iff,
      Reader.pure_eq_ok_iff]
    exact ⟨_, m₄, ⟨rfl, hbytes⟩, _, m₅, ⟨stored, hstored, hhandlers⟩, _, d, hattributes, (), d,
      ⟨hend, rfl⟩, rfl, rfl⟩

/-- A body that was read can be written. -/
theorem storable_of_ofBytes {body : MethodBody} {data : Bytes}
    (h : ofBytes pool data = .ok body) : body.Storable pool := by
  obtain ⟨d, h⟩ := Reader.read_eq_ok_iff.1 h
  obtain ⟨hne, hle, _, m, -, -, hattributes, -⟩ := reader_eq_ok_iff.1 h
  obtain ⟨-, _, -, hyields⟩ := tableReader_eq_ok_iff.1 hattributes
  exact ⟨hne, hle, NestedAttribute.storable_of_yields hyields⟩

/-- A body is read in the same way against a pool that has grown. -/
theorem ofBytes_extends {body : MethodBody} {data : Bytes} (h : ofBytes pool data = .ok body)
    (hext : later.Extends pool) : ofBytes later data = .ok body := by
  obtain ⟨d, h⟩ := Reader.read_eq_ok_iff.1 h
  obtain ⟨hne, hle, handlers, m, hhandlers, hpasses, hattributes, hend⟩ := reader_eq_ok_iff.1 h
  obtain ⟨hcount, m', hlength, hyields⟩ := tableReader_eq_ok_iff.1 hattributes
  have htable : tableReader (NestedAttribute.reader later) m = .ok (body.attributes, d) :=
    tableReader_eq_ok_iff.2 ⟨hcount, m', hlength, NestedAttribute.yields_extends hyields hext⟩
  exact Reader.read_eq_ok_iff.2
    ⟨d, reader_eq_ok_iff.2 ⟨hne, hle, handlers, m, hhandlers, hpasses, htable, hend⟩⟩

/-- A body that was written is read back. -/
theorem ofBytes_encode {body : MethodBody} {data : Bytes} (hstorable : body.Storable pool)
    (h : body.encode = .ok data) : ofBytes pool data = .ok body := by
  obtain ⟨-, hcount, handlers, attributes, hhandlers, hattributes, rfl⟩ := encode_eq_ok_iff.1 h
  rw [List.append_assoc]
  obtain ⟨m, hfront, hm⟩ := passes_skip (Cursor.ofBytes _) _ _ rfl
  obtain ⟨m', hlength, hm'⟩ := passes_skip m _ _ hm
  obtain ⟨d, hrest, hend⟩ := passes_skip m' attributes.flatten [] (by simpa using hm')
  have htable : tableReader (NestedAttribute.reader pool) m = .ok (body.attributes, d) :=
    tableReader_eq_ok_iff.2 ⟨hcount, m', hlength,
      NestedAttribute.yields_of_encode hstorable.attributes hattributes hrest⟩
  exact Reader.read_eq_ok_iff.2 ⟨d, reader_eq_ok_iff.2 ⟨hstorable.code_ne_nil, hstorable.length_le,
    handlers, m, hhandlers, hfront, htable, hend⟩⟩

end MethodBody

end CallProbe
