import CallProbe.Proofs.StackMap.Moving

/-!
# How far stored stack maps grow

Frames that move apart may lose their one-byte form, which costs two bytes each time. This
takes a distance of more than 64, and a code array has room for 1008 of these only.
-/

namespace CallProbe

variable {relocation : Relocation}

/-! ## One frame -/

theorem VerificationType.length_encode_le (type : VerificationType) : type.encode.length ≤ 3 := by
  cases type <;> simp [encode]

theorem VerificationType.length_flatMap_encode_le (types : List VerificationType) :
    (types.flatMap encode).length ≤ 3 * types.length := by
  induction types with
  | nil => simp
  | cons type rest ih =>
      have htype := type.length_encode_le
      rw [List.flatMap_cons, List.length_append, List.length_cons]
      omega

theorem VerificationType.Moved.length_encode {type moved : VerificationType}
    (h : type.Moved relocation moved) : moved.encode.length = type.encode.length := by
  cases type with
  | uninitialized offset =>
      rcases h with ⟨place, -, rfl⟩
      simp [encode]
  | _ =>
      cases h
      rfl

/-- Entries that keep their sizes keep the size of the whole. -/
theorem length_flatMap_of_forall₂ {α : Type} {R : α → α → Prop} {encode : α → Bytes}
    {items results : List α} (h : List.Forall₂ R items results)
    (hsize : ∀ {item result}, R item result → (encode result).length = (encode item).length) :
    (results.flatMap encode).length = (items.flatMap encode).length := by
  induction h with
  | nil => rfl
  | cons hitem _ ih =>
      rw [List.flatMap_cons, List.flatMap_cons, List.length_append, List.length_append,
        hsize hitem, ih]

namespace FrameKind

variable {kind : FrameKind} {delta : UInt16}

theorem length_encode_same :
    (same.encode delta).length = if delta.toNat ≤ maxCompactDelta then 1 else 3 := by
  rw [encode]
  split <;> simp

theorem length_encode_sameWithItem {item : VerificationType} :
    ((sameWithItem item).encode delta).length =
      (if delta.toNat ≤ maxCompactDelta then 1 else 3) + item.encode.length := by
  rw [encode]
  split <;> simp <;> omega

/-- A moved frame takes as many bytes at the same distance. -/
theorem Moved.length_encode {moved : FrameKind} (h : kind.Moved relocation moved)
    (delta : UInt16) :
    (moved.encode delta).length = (kind.encode delta).length := by
  have htypes {types moved : List VerificationType}
      (h : List.Forall₂ (VerificationType.Moved relocation) types moved) :
      (moved.flatMap VerificationType.encode).length =
        (types.flatMap VerificationType.encode).length :=
    length_flatMap_of_forall₂ h fun htype => htype.length_encode
  cases kind with
  | same =>
      cases h
      rfl
  | chop count =>
      cases h
      rfl
  | sameWithItem item =>
      rcases h with ⟨_, hitem, rfl⟩
      rw [length_encode_sameWithItem, length_encode_sameWithItem, hitem.length_encode]
  | append locals =>
      rcases h with ⟨_, hlocals, rfl⟩
      simp [encode, htypes hlocals]
  | full locals stack =>
      rcases h with ⟨_, _, hlocals, hstack, rfl⟩
      simp [encode, htypes hlocals, htypes hstack]

/-- Two full lists of types, each type with an index. -/
theorem Storable.length_encode_le (h : kind.Storable) :
    (kind.encode delta).length ≤ 393217 := by
  cases kind with
  | same =>
      rw [length_encode_same]
      split <;> omega
  | chop count => simp [encode]
  | sameWithItem item =>
      have hitem := item.length_encode_le
      rw [length_encode_sameWithItem]
      split <;> omega
  | append locals =>
      have hlocals := VerificationType.length_flatMap_encode_le locals
      have hfew := h.2
      simp only [encode, List.length_append, List.length_cons, length_bytes16]
      omega
  | full locals stack =>
      have hlocals := VerificationType.length_flatMap_encode_le locals
      have hstack := VerificationType.length_flatMap_encode_le stack
      rcases h with ⟨hlocalCount, hstackCount⟩
      unfold maxTableLength at hlocalCount hstackCount
      simp only [encode, List.length_append, List.length_cons, length_bytes16]
      omega

theorem length_encode_le_extended : (kind.encode delta).length ≤ (kind.extended delta).length := by
  cases kind with
  | same =>
      rw [length_encode_same, extended, List.length_cons, length_bytes16]
      split <;> omega
  | sameWithItem item =>
      rw [length_encode_sameWithItem, extended, List.length_append, List.length_cons,
        length_bytes16]
      split <;> omega
  | _ => exact Nat.le_refl _

/-- Two further bytes are paid for by a distance that has no one-byte form. -/
theorem length_encode_le (kind : FrameKind) (delta delta' : UInt16) :
    65 * (kind.encode delta').length ≤
      65 * (kind.encode delta).length + 2 * (delta'.toNat + 1) := by
  cases kind with
  | same =>
      rw [length_encode_same, length_encode_same, maxCompactDelta]
      split <;> split <;> omega
  | sameWithItem item =>
      rw [length_encode_sameWithItem, length_encode_sameWithItem, maxCompactDelta]
      split <;> split <;> omega
  | _ => simp [encode]

end FrameKind

/-! ## Rows of frames -/

namespace StackMap

variable {previous previous' : Option UInt16} {frames frames' : StackMap} {c d : Cursor}

/-- The first offset that is still free behind the frame at `previous`. -/
def free (previous : Option UInt16) : Nat :=
  match previous with
  | none => 0
  | some previous => previous.toNat + 1

theorem free_le (previous : Option UInt16) : free previous ≤ 65536 := by
  cases previous with
  | none => exact Nat.zero_le _
  | some previous => exact previous.toNat_lt

theorem free_add_distance {offset : UInt16} (h : ∀ earlier ∈ previous, earlier < offset) :
    free previous + (Frame.distance previous offset).toNat = offset.toNat := by
  cases previous with
  | none => simp [free, Frame.distance]
  | some earlier =>
      have hlt : earlier.toNat < offset.toNat := UInt16.lt_iff_toNat_lt.1 (h earlier rfl)
      have hoffset : offset.toNat < 65536 := offset.toNat_lt
      simp only [free, Frame.distance]
      rw [UInt16.toNat_ofNat_of_lt' (show _ < 65536 by omega)]
      omega

/-- Every frame takes an offset of its own. -/
theorem Rising.length_le (h : Rising previous frames) {last : Nat}
    (hfree : free previous ≤ last + 1)
    (hlast : ∀ frame ∈ frames, frame.offset.toNat ≤ last) :
    free previous + frames.length ≤ last + 1 := by
  induction frames generalizing previous with
  | nil => exact hfree
  | cons frame rest ih =>
      rcases h with ⟨hbehind, hrest⟩
      obtain ⟨hhead, htail⟩ := List.forall_mem_cons.1 hlast
      have hgap := free_add_distance hbehind
      have hnext : free (some frame.offset) = frame.offset.toNat + 1 := rfl
      have hcount := ih hrest (by omega) htail
      rw [List.length_cons]
      omega

/-- Frames whose offsets keep their order still lie behind each other. -/
theorem Rising.moved (h : Rising previous frames)
    (hmoved : List.Forall₂ (Frame.Moved relocation) frames frames')
    (hordered : relocation.OrderedOn (previous.toList ++ frames.map (·.offset)))
    (hprevious : Option.Rel relocation.Moves previous previous') : Rising previous' frames' := by
  induction hmoved generalizing previous previous' with
  | nil => trivial
  | @cons frame frame' _ _ hframe _ ih =>
      rcases h with ⟨hbehind, hrest⟩
      have hnext := hordered.mono (List.subset_append_right previous.toList _)
      refine ⟨?_, ih hrest hnext (.some hframe.offset)⟩
      intro earlier' hearlier
      cases hprevious with
      | none => cases hearlier
      | @some earlier _ hplace =>
          cases hearlier
          exact UInt16.lt_iff_toNat_lt.2
            (hordered (by simp) (by simp) hplace hframe.offset (hbehind earlier rfl))

/-- What was read takes up at least what would be written. -/
theorem Yields.length_rows_le (h : Yields previous c frames d) :
    (rows previous frames).flatten.length + d.ahead.length ≤ c.ahead.length := by
  induction frames generalizing previous c with
  | nil =>
      cases h
      simp [rows]
  | cons frame rest ih =>
      rcases h with ⟨delta, m, hframe, hoffset, hrest⟩
      have hdelta := (Frame.delta?_eq_some_iff.1 (Frame.offset?_eq_some_iff.1 hoffset)).2
      have hlong : (frame.kind.encode delta).length + m.ahead.length ≤ c.ahead.length := by
        rcases (FrameKind.reader_eq_ok_iff.1 hframe).2 with hpasses | hpasses
        · exact Nat.le_of_eq (by rw [hpasses.ahead, List.length_append])
        · have hextended : (frame.kind.encode delta).length ≤ _ :=
            FrameKind.length_encode_le_extended
          rw [hpasses.ahead, List.length_append]
          omega
      have hrows := ih hrest
      rw [rows, List.flatten_cons, List.length_append, ← hdelta]
      omega

theorem length_rows_le (hstorable : ∀ frame ∈ frames, frame.kind.Storable) :
    (rows previous frames).flatten.length ≤ 393217 * frames.length := by
  induction frames generalizing previous with
  | nil => simp [rows]
  | cons frame rest ih =>
      obtain ⟨hhead, htail⟩ := List.forall_mem_cons.1 hstorable
      have hrow : (frame.kind.encode (Frame.distance previous frame.offset)).length ≤ 393217 :=
        hhead.length_encode_le
      have hrows : (rows (some frame.offset) rest).flatten.length ≤ _ := ih htail
      rw [rows, List.flatten_cons, List.length_append, List.length_cons]
      omega

/-- Along the moved frames, every further byte is paid for by offsets that are passed. -/
theorem length_rows_moved (hmoved : List.Forall₂ (Frame.Moved relocation) frames frames')
    (hrising : Rising previous' frames') :
    65 * (rows previous' frames').flatten.length + 2 * free previous' ≤
      65 * (rows previous frames).flatten.length + 2 * 65536 := by
  induction hmoved generalizing previous previous' with
  | nil =>
      have hfree := free_le previous'
      simp only [rows, List.flatten_nil, List.length_nil]
      omega
  | @cons frame frame' rest rest' hframe _ ih =>
      rcases hrising with ⟨hbehind, hrest⟩
      have hgap := free_add_distance hbehind
      have hnext : free (some frame'.offset) = frame'.offset.toNat + 1 := rfl
      have hrow := frame.kind.length_encode_le (Frame.distance previous frame.offset)
        (Frame.distance previous' frame'.offset)
      have hrows : _ ≤ 65 * (rows (some frame.offset) rest).flatten.length + _ := ih hrest
      rw [rows, rows, List.flatten_cons, List.flatten_cons, List.length_append, List.length_append,
        hframe.kind.length_encode]
      omega

/-- Frames that were read and have moved in order can be written, in little more than the bytes
they were read from. -/
theorem exists_encode_moved {data : Bytes} (h : ofBytes data = .ok frames)
    (hmoved : List.Forall₂ (Frame.Moved relocation) frames frames')
    (hordered : relocation.Ordered) :
    ∃ stored, frames'.encode = .ok stored ∧ stored.length ≤ data.length + 2016 ∧
      stored.length ≤ 2 + 393217 * frames.length := by
  obtain ⟨hlength, m, d, hcount, hyields, -⟩ := ofBytes_eq_ok_iff.1 h
  obtain ⟨hrising, hstorable⟩ := hyields.storable
  have hrising' : Rising none frames' := hrising.moved hmoved (hordered.on _) .none
  have hdata : data.length = 2 + m.ahead.length := by
    have hahead : data = _ := hcount.ahead
    rw [hahead, List.length_append, length_bytes16]
  have hread := hyields.length_rows_le
  have hgrown : _ ≤ 65 * (rows none frames).flatten.length + _ :=
    length_rows_moved hmoved hrising'
  have hbound : (rows none frames').flatten.length ≤ 393217 * frames'.length :=
    length_rows_le (forall_mem_of_forall₂ hmoved (fun h => h.kind.storable) hstorable)
  have hfree : free none = 0 := rfl
  have hsame := hmoved.length_eq
  refine ⟨_, encode_eq_ok_iff.2 ⟨hsame ▸ hlength, hrising', rfl⟩, ?_, ?_⟩
  · rw [List.length_append, length_bytes16]
    omega
  · rw [List.length_append, length_bytes16, hsame]
    omega

end StackMap

end CallProbe
