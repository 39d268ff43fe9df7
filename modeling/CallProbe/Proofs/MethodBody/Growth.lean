import CallProbe.Proofs.MethodBody.Covering
import CallProbe.Proofs.StackMap.Growth

/-!
# Moved bodies can be written

Tables keep their sizes when a body moves, stack maps do not. In a body with a 32-bit length
there is room for what they grow by: frames are few in a short code array, and next to a long
one a stack map never fills a whole attribute.
-/

namespace CallProbe

open Outcome

variable {relocation : Relocation} {pool : Pool}

/-- Entries that keep their sizes make a table of the same size. -/
theorem exists_encodeTable {α : Type} {R : α → α → Prop} {encode : α → Bytes}
    {items results : List α} {stored : Bytes} (h : encodeTable encode items = .ok stored)
    (hmoved : List.Forall₂ R items results)
    (hsize : ∀ {item result}, R item result → (encode result).length = (encode item).length) :
    ∃ stored', encodeTable encode results = .ok stored' ∧ stored'.length = stored.length := by
  obtain ⟨hlength, rfl⟩ := encodeTable_eq_ok_iff.1 h
  refine ⟨_, encodeTable_eq_ok_iff.2 ⟨hmoved.length_eq ▸ hlength, rfl⟩, ?_⟩
  simp only [List.length_append, length_bytes16, length_flatMap_of_forall₂ hmoved hsize]

/-! ## Nested attributes -/

namespace NestedAttribute

/-- The attribute is stored as `content`. -/
def StoredAs (content : Bytes) : NestedAttribute → Prop
  | lineNumbers _ marks => encodeTable LineMark.encode marks = .ok content
  | localVariables _ _ ranges => encodeTable VariableRange.encode ranges = .ok content
  | stackMap _ frames => StackMap.ofBytes content = .ok frames
  | unknown _ data => data = content

theorem storedAs_of_ofContent {name : UInt16} {content : Bytes} {nested : NestedAttribute}
    (h : ofContent pool name content = .ok nested) : nested.StoredAs content := by
  unfold ofContent at h
  obtain ⟨text, -, h⟩ := bind_eq_ok_iff.1 h
  split at h
  · obtain ⟨marks, hmarks, h⟩ := bind_eq_ok_iff.1 h
    cases h
    exact (tableOfBytes_eq_ok_iff LineMark.reader_inverts).1 hmarks
  · obtain ⟨ranges, hranges, h⟩ := bind_eq_ok_iff.1 h
    cases h
    exact (tableOfBytes_eq_ok_iff VariableRange.reader_inverts).1 hranges
  · obtain ⟨ranges, hranges, h⟩ := bind_eq_ok_iff.1 h
    cases h
    exact (tableOfBytes_eq_ok_iff VariableRange.reader_inverts).1 hranges
  · obtain ⟨frames, hframes, h⟩ := bind_eq_ok_iff.1 h
    cases h
    exact hframes
  · cases h
    rfl

theorem storedAs_of_yields {c d : Cursor} {attributes : List NestedAttribute}
    (h : (reader pool).Yields c attributes d) :
    ∀ nested ∈ attributes, ∃ content, nested.StoredAs content ∧
      content.length + 6 ≤ c.ahead.length := by
  induction attributes generalizing c with
  | nil => simp
  | cons nested rest ih =>
      rcases h with ⟨m, hhead, hrest⟩
      obtain ⟨content, -, hpasses, hread⟩ := reader_eq_ok_iff.1 hhead
      have hlength : c.ahead.length = content.length + 6 + m.ahead.length := by
        rw [hpasses.ahead]
        simp only [List.length_append, length_bytes16, length_bytes32]
        omega
      refine List.forall_mem_cons.2 ⟨⟨content, storedAs_of_ofContent hread, by omega⟩, ?_⟩
      intro other hother
      obtain ⟨content', hstored, hroom⟩ := ih hrest other hother
      exact ⟨content', hstored, by omega⟩

/-- The content of a moved attribute can be written. It has a 32-bit length if the old content stood
in a body that has one, next to a code array that holds all its offsets. -/
theorem Moved.exists_encodeContent {nested moved : NestedAttribute} {content : Bytes} {size : Nat}
    (h : nested.Moved relocation moved) (hstored : nested.StoredAs content)
    (hordered : relocation.Ordered) (hlast : ∀ offset ∈ nested.offsets, offset ≤ size) :
    ∃ content', moved.encodeContent = .ok content' ∧
      (content.length + size + 18 ≤ maxContentLength → content'.length ≤ maxContentLength) := by
  cases nested with
  | lineNumbers name marks =>
      rcases h with ⟨marks', hmarks, rfl⟩
      obtain ⟨content', hok, hsame⟩ := exists_encodeTable hstored hmarks fun _ => rfl
      exact ⟨content', hok, by omega⟩
  | localVariables table name ranges =>
      rcases h with ⟨ranges', hranges, rfl⟩
      obtain ⟨content', hok, hsame⟩ := exists_encodeTable hstored hranges fun _ => rfl
      exact ⟨content', hok, by omega⟩
  | stackMap name frames =>
      rcases h with ⟨frames', hframes, rfl⟩
      obtain ⟨content', hok, hgrown, hfew⟩ :=
        StackMap.exists_encode_moved hstored hframes hordered
      have hoffset : ∀ frame ∈ frames, frame.offset.toNat ≤ size := by
        intro frame hframe
        exact hlast _ (List.mem_map_of_mem (List.mem_flatMap_of_mem hframe List.mem_cons_self))
      have hcount := (StackMap.storable_of_ofBytes hstored).1.length_le (Nat.zero_le _) hoffset
      refine ⟨content', hok, fun hroom => ?_⟩
      -- With fewer offsets than a stack map can grow by, even the largest frames fit.
      unfold maxContentLength at hroom ⊢
      omega
  | unknown name data =>
      cases h
      cases hstored
      exact ⟨content, rfl, by omega⟩

/-- What can go wrong with a moved attribute is that it outgrows its length. -/
theorem Moved.encode_fails {nested moved : NestedAttribute} {content : Bytes} {size : Nat}
    (h : nested.Moved relocation moved) (hstored : nested.StoredAs content)
    (hordered : relocation.Ordered) (hlast : ∀ offset ∈ nested.offsets, offset ≤ size)
    {fault : Fault} (hfail : moved.encode = .error fault) :
    fault = .malformed .nestedTooLarge ∧ maxContentLength < content.length + size + 18 := by
  obtain ⟨content', hok, hroom⟩ := h.exists_encodeContent hstored hordered hlast
  by_cases hfits : content'.length ≤ maxContentLength
  · rw [encode_eq_ok_iff.2 ⟨content', hok, hfits, rfl⟩] at hfail
    cases hfail
  · unfold encode at hfail
    rw [hok] at hfail
    have hlarge : Except.error (.malformed .nestedTooLarge) = Except.error fault :=
      (if_pos (Nat.not_le.1 hfits)).symm.trans hfail
    cases hlarge
    exact ⟨rfl, by omega⟩

end NestedAttribute

/-! ## Bodies -/

namespace MethodBody

variable {body moved : MethodBody} {data code : Bytes}

theorem storedAs_of_ofBytes (h : ofBytes pool data = .ok body) :
    ∀ nested ∈ body.attributes, ∃ content, nested.StoredAs content ∧
      content.length + body.code.length + 18 ≤ data.length := by
  obtain ⟨d, h⟩ := Reader.read_eq_ok_iff.1 h
  obtain ⟨-, -, handlers, m, hhandlers, hpasses, hattributes, -⟩ := reader_eq_ok_iff.1 h
  obtain ⟨-, rfl⟩ := encodeTable_eq_ok_iff.1 hhandlers
  obtain ⟨-, m', hcount, hyields⟩ := tableReader_eq_ok_iff.1 hattributes
  have hahead : data = _ := hpasses.ahead
  have hlength : body.code.length + 10 + m.ahead.length ≤ data.length := by
    rw [hahead]
    simp only [List.length_append, length_bytes16, length_bytes32]
    omega
  have hrest : m.ahead.length = 2 + m'.ahead.length := by
    rw [hcount.ahead, List.length_append, length_bytes16]
  intro nested hnested
  obtain ⟨content, hstored, hroom⟩ := NestedAttribute.storedAs_of_yields hyields nested hnested
  exact ⟨content, hstored, by omega⟩

/-- A body that cannot be stored has an attribute that cannot, if its counts fit. -/
theorem exists_attribute_of_encode_eq_error (hlength : body.code.length ≤ maxContentLength)
    (hcount : body.attributes.length ≤ maxTableLength) {handlers : Bytes}
    (hhandlers : encodeTable Handler.encode body.handlers = .ok handlers) {fault : Fault}
    (hfail : body.encode = .error fault) :
    ∃ nested ∈ body.attributes, nested.encode = .error fault := by
  unfold encode tableCount at hfail
  rw [if_neg (Nat.not_lt.2 hlength), if_pos hcount, hhandlers] at hfail
  refine exists_of_mapM_eq_error ?_
  simpa [bind_eq_error_iff, fmap_eq_error_iff] using hfail

/-- What can go wrong with storing a body that has moved is that an attribute outgrows its length,
and only if the body was read from more bytes than a 32-bit length can tell. All this as long as the
tables refer to offsets of the code array only and these keep their order. -/
theorem Moved.encode_fails (hmoved : body.Moved relocation code moved)
    (h : ofBytes pool data = .ok body) (hcode : code.length ≤ maxCodeLength)
    (hordered : relocation.Ordered) (hlast : ∀ offset ∈ body.offsets, offset ≤ body.code.length)
    {maxStack : UInt16} {fault : Fault} (hfail : { moved with maxStack }.encode = .error fault) :
    fault = .malformed .nestedTooLarge ∧ maxContentLength < data.length := by
  obtain ⟨d, hread⟩ := Reader.read_eq_ok_iff.1 h
  obtain ⟨-, -, _, m, hhandlers, -, hattributes, -⟩ := reader_eq_ok_iff.1 hread
  obtain ⟨handlers, hhandlers', -⟩ :=
    exists_encodeTable hhandlers hmoved.handlers fun _ => rfl
  have hcount : moved.attributes.length ≤ maxTableLength := by
    rw [← hmoved.attributes.length_eq]
    exact Nat.le_trans (List.length_filter_le ..) (tableReader_eq_ok_iff.1 hattributes).1
  have hlength : moved.code.length ≤ maxContentLength :=
    Nat.le_trans (hmoved.code ▸ hcode) (by decide)
  have hattribute : ∀ nested ∈ moved.attributes, ∀ fault, nested.encode = .error fault →
      fault = .malformed .nestedTooLarge ∧ maxContentLength < data.length := by
    refine forall_mem_of_forall₂ hmoved.attributes ?_
      fun _ hnested => List.mem_of_mem_filter hnested
    intro nested moved hnested hmem fault hfail
    obtain ⟨content, hstored, hroom⟩ := storedAs_of_ofBytes h nested hmem
    have hinside : ∀ offset ∈ nested.offsets, offset ≤ body.code.length := by
      intro offset hoffset
      exact hlast offset (List.mem_append_right _ (List.mem_flatMap_of_mem hmem hoffset))
    obtain ⟨hfault, hlarge⟩ := hnested.encode_fails hstored hordered hinside hfail
    exact ⟨hfault, by omega⟩
  obtain ⟨nested, hnested, hcause⟩ :=
    @exists_attribute_of_encode_eq_error { moved with maxStack } hlength hcount _ hhandlers' _ hfail
  exact hattribute nested hnested fault hcause

end MethodBody

end CallProbe
