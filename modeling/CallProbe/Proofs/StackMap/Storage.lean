import CallProbe.Proofs.Bytes.Passage
import CallProbe.Proofs.Outcome
import CallProbe.StackMap.Codec

/-!
# Stored stack maps are read back

A frame is stored at a distance from the frame before it. Two kinds have a longer form
besides the one that is written, so reading accepts more than writing produces, but it
never yields a frame that could not be written.
-/

namespace CallProbe

open Reader Cursor

variable {c d : Cursor}

theorem VerificationType.reader_inverts : reader.Inverts encode := by
  intro c type d
  unfold reader
  simp only [Reader.bind_eq_ok_iff, u8_eq_ok_iff]
  constructor
  · intro h
    rcases h with ⟨tag, m, htag, h⟩
    split at h
    all_goals simp only [Reader.bind_eq_ok_iff, Reader.pure_eq_ok_iff, u16_eq_ok_iff,
      Reader.throw_ne_ok] at h
    case h_8 | h_9 =>
      rcases h with ⟨index, _, hindex, rfl, rfl⟩
      exact htag.trans hindex
    all_goals
      rcases h with ⟨rfl, rfl⟩
      exact htag
  · intro h
    cases type with
    | object index =>
        obtain ⟨m, htag, hindex⟩ := passes_cons_iff.1 h
        refine ⟨7, m, htag, ?_⟩
        simp only [Reader.bind_eq_ok_iff, Reader.pure_eq_ok_iff, u16_eq_ok_iff]
        exact ⟨index, d, hindex, rfl, rfl⟩
    | uninitialized offset =>
        obtain ⟨m, htag, hoffset⟩ := passes_cons_iff.1 h
        refine ⟨8, m, htag, ?_⟩
        simp only [Reader.bind_eq_ok_iff, Reader.pure_eq_ok_iff, u16_eq_ok_iff]
        exact ⟨offset, d, hoffset, rfl, rfl⟩
    | _ => exact ⟨_, d, h, rfl⟩

namespace FrameKind

variable {delta : UInt16} {kind : FrameKind}

/-- The kinds of frames that have a stored form: few locals come or go, and the lists of a full
frame can be counted. -/
def Storable : FrameKind → Prop
  | same | sameWithItem _ => True
  | chop count => 1 ≤ count.toNat ∧ count.toNat ≤ 3
  | append locals => 1 ≤ locals.length ∧ locals.length ≤ 3
  | full locals stack => locals.length ≤ maxTableLength ∧ stack.length ≤ maxTableLength

/-- The stored form that has room for any distance. -/
def extended (delta : UInt16) : FrameKind → Bytes
  | same => 251 :: bytes16 delta
  | sameWithItem item => 247 :: bytes16 delta ++ item.encode
  | kind => kind.encode delta

private theorem many_types_eq_ok_iff {count : Nat} {types : List VerificationType} :
    many VerificationType.reader count c = .ok (types, d) ↔
      types.length = count ∧ c.Passes (types.flatMap VerificationType.encode) d :=
  VerificationType.reader_inverts.many_eq_ok_iff

theorem encode_same {n : Nat} (h : n ≤ maxCompactDelta) :
    same.encode (UInt16.ofNat n) = [UInt8.ofNat n] := by
  have hdelta : (UInt16.ofNat n).toNat = n :=
    UInt16.toNat_ofNat_of_lt' (Nat.lt_of_le_of_lt h (by decide))
  rw [encode, hdelta, if_pos h]

theorem encode_sameWithItem {n : Nat} (h : n ≤ maxCompactDelta) (item : VerificationType) :
    (sameWithItem item).encode (UInt16.ofNat n) = UInt8.ofNat (64 + n) :: item.encode := by
  have hdelta : (UInt16.ofNat n).toNat = n :=
    UInt16.toNat_ofNat_of_lt' (Nat.lt_of_le_of_lt h (by decide))
  rw [encode, hdelta, if_pos h]

theorem toNat_chop {count : UInt8} (h : count.toNat ≤ 251) :
    (251 - count).toNat = 251 - count.toNat :=
  UInt8.toNat_sub_of_le _ _ (UInt8.le_iff_toNat_le.2 h)

theorem sub_sub_chop {count : UInt8} (h : count.toNat ≤ 251) : 251 - (251 - count) = count := by
  have hfirst := toNat_chop h
  apply UInt8.toNat_inj.1
  rw [toNat_chop (by omega), hfirst]
  omega

/-- What is read has one of its stored forms behind it. -/
private theorem passes_of_reader (h : reader c = .ok ((delta, kind), d)) :
    kind.Storable ∧ (c.Passes (kind.encode delta) d ∨ c.Passes (kind.extended delta) d) := by
  unfold reader at h
  simp only [Reader.bind_eq_ok_iff, u8_eq_ok_iff] at h
  rcases h with ⟨tag, m, htag, h⟩
  have hback : UInt8.ofNat tag.toNat = tag := UInt8.ofNat_toNat
  have hlt : tag.toNat < 256 := tag.toNat_lt
  by_cases hsame : tag.toNat ≤ 63
  · rw [if_pos hsame, Reader.pure_eq_ok_iff] at h
    rcases h with ⟨⟨rfl, rfl⟩, rfl⟩
    refine ⟨trivial, .inl ?_⟩
    rw [encode_same hsame, hback]
    exact htag
  rw [if_neg hsame] at h
  by_cases hitem : tag.toNat ≤ 127
  · simp only [if_pos hitem, Reader.bind_eq_ok_iff, Reader.pure_eq_ok_iff] at h
    rcases h with ⟨item, _, hread, ⟨rfl, rfl⟩, rfl⟩
    have hcompact : tag.toNat - 64 ≤ maxCompactDelta := by
      unfold maxCompactDelta
      omega
    refine ⟨trivial, .inl ?_⟩
    rw [encode_sameWithItem hcompact, Nat.add_sub_cancel' (by omega), hback]
    exact htag.trans ((VerificationType.reader_inverts _ _ _).1 hread)
  rw [if_neg hitem] at h
  -- All tags from 247 on have the distance behind them.
  by_cases hgap : tag.toNat ≤ 246
  · rw [if_pos hgap] at h
    cases h
  simp only [if_neg hgap, Reader.bind_eq_ok_iff, u16_eq_ok_iff] at h
  rcases h with ⟨distance, m', hdistance, h⟩
  have hfront := htag.trans hdistance
  by_cases hlong : tag.toNat = 247
  · obtain rfl : tag = 247 := by rw [← hback, hlong]; rfl
    simp only [if_pos hlong, Reader.bind_eq_ok_iff, Reader.pure_eq_ok_iff] at h
    rcases h with ⟨item, _, hread, ⟨rfl, rfl⟩, rfl⟩
    exact ⟨trivial, .inr (hfront.trans ((VerificationType.reader_inverts _ _ _).1 hread))⟩
  rw [if_neg hlong] at h
  by_cases hchop : tag.toNat ≤ 250
  · rw [if_pos hchop, Reader.pure_eq_ok_iff] at h
    rcases h with ⟨⟨rfl, rfl⟩, rfl⟩
    have hcount : (251 - tag).toNat = 251 - tag.toNat := toNat_chop (by omega)
    refine ⟨⟨by omega, by omega⟩, .inl ?_⟩
    rw [encode, sub_sub_chop (by omega)]
    exact hfront
  rw [if_neg hchop] at h
  by_cases hplain : tag.toNat = 251
  · obtain rfl : tag = 251 := by rw [← hback, hplain]; rfl
    rw [if_pos hplain, Reader.pure_eq_ok_iff] at h
    rcases h with ⟨⟨rfl, rfl⟩, rfl⟩
    exact ⟨trivial, .inr hfront⟩
  rw [if_neg hplain] at h
  by_cases happend : tag.toNat ≤ 254
  · simp only [if_pos happend, Reader.bind_eq_ok_iff, many_types_eq_ok_iff,
      Reader.pure_eq_ok_iff] at h
    rcases h with ⟨locals, _, ⟨hlength, hlocals⟩, ⟨rfl, rfl⟩, rfl⟩
    refine ⟨⟨by omega, by omega⟩, .inl ?_⟩
    rw [encode, hlength, Nat.add_sub_cancel' (by omega), hback]
    exact hfront.trans hlocals
  · obtain rfl : tag = 255 := by
      rw [← hback, show tag.toNat = 255 by omega]
      rfl
    simp only [if_neg happend, Reader.bind_eq_ok_iff, u16_eq_ok_iff, many_types_eq_ok_iff,
      Reader.pure_eq_ok_iff] at h
    rcases h with ⟨n, _, hn, locals, _, ⟨hlocals, hread⟩, n', _, hn', stack, _, ⟨hstack, hread'⟩,
      ⟨rfl, rfl⟩, rfl⟩
    have hlt := n.toNat_lt
    have hlt' := n'.toNat_lt
    refine ⟨⟨by unfold maxTableLength; omega, by unfold maxTableLength; omega⟩, .inl ?_⟩
    rw [encode, hlocals, hstack, UInt16.ofNat_toNat, UInt16.ofNat_toNat]
    exact (((hfront.trans hn).trans hread).trans hn').trans hread'

private theorem reader_extended (hstorable : kind.Storable)
    (h : c.Passes (kind.extended delta) d) : reader c = .ok ((delta, kind), d) := by
  unfold reader
  simp only [Reader.bind_eq_ok_iff, u8_eq_ok_iff]
  cases kind with
  | same =>
      obtain ⟨m, htag, hdelta⟩ := passes_cons_iff.1 h
      refine ⟨251, m, htag, ?_⟩
      rw [if_neg (by decide), if_neg (by decide), if_neg (by decide), Reader.bind_eq_ok_iff]
      exact ⟨delta, d, u16_eq_ok_iff.2 hdelta, rfl⟩
  | sameWithItem item =>
      obtain ⟨m, htag, h⟩ := passes_cons_iff.1 h
      obtain ⟨m', hdelta, hitem⟩ := passes_append_iff.1 h
      refine ⟨247, m, htag, ?_⟩
      rw [if_neg (by decide), if_neg (by decide), if_neg (by decide), Reader.bind_eq_ok_iff]
      refine ⟨delta, m', u16_eq_ok_iff.2 hdelta, ?_⟩
      rw [if_pos (by decide), Reader.bind_eq_ok_iff]
      exact ⟨item, d, (VerificationType.reader_inverts _ _ _).2 hitem, rfl⟩
  | chop count =>
      rcases hstorable with ⟨hlow, hhigh⟩
      have hcount : (251 - count).toNat = 251 - count.toNat := toNat_chop (by omega)
      obtain ⟨m, htag, hdelta⟩ := passes_cons_iff.1 h
      refine ⟨_, m, htag, ?_⟩
      rw [hcount, if_neg (by omega), if_neg (by omega), if_neg (by omega),
        Reader.bind_eq_ok_iff]
      refine ⟨delta, d, u16_eq_ok_iff.2 hdelta, ?_⟩
      rw [if_neg (by omega), if_pos (by omega), sub_sub_chop (by omega)]
      rfl
  | append locals =>
      rcases hstorable with ⟨hlow, hhigh⟩
      have hcount : (UInt8.ofNat (251 + locals.length)).toNat = 251 + locals.length :=
        UInt8.toNat_ofNat_of_lt' (show _ < 256 by omega)
      obtain ⟨m, htag, h⟩ := passes_cons_iff.1 h
      obtain ⟨m', hdelta, hlocals⟩ := passes_append_iff.1 h
      refine ⟨_, m, htag, ?_⟩
      rw [hcount, if_neg (by omega), if_neg (by omega), if_neg (by omega),
        Reader.bind_eq_ok_iff]
      refine ⟨delta, m', u16_eq_ok_iff.2 hdelta, ?_⟩
      rw [if_neg (by omega), if_neg (by omega), if_neg (by omega), if_pos (by omega),
        Reader.bind_eq_ok_iff]
      exact ⟨locals, d, many_types_eq_ok_iff.2 ⟨by omega, hlocals⟩, rfl⟩
  | full locals stack =>
      rcases hstorable with ⟨hlocals, hstack⟩
      unfold maxTableLength at hlocals hstack
      have hn : (UInt16.ofNat locals.length).toNat = locals.length :=
        UInt16.toNat_ofNat_of_lt' (show _ < 65536 by omega)
      have hn' : (UInt16.ofNat stack.length).toNat = stack.length :=
        UInt16.toNat_ofNat_of_lt' (show _ < 65536 by omega)
      simp only [extended, encode, List.cons_append, List.append_assoc] at h
      obtain ⟨m, htag, h⟩ := passes_cons_iff.1 h
      simp only [passes_append_iff] at h
      rcases h with ⟨m₁, hdelta, m₂, hcount, m₃, hread, m₄, hcount', hread'⟩
      refine ⟨255, m, htag, ?_⟩
      rw [if_neg (by decide), if_neg (by decide), if_neg (by decide), Reader.bind_eq_ok_iff]
      refine ⟨delta, m₁, u16_eq_ok_iff.2 hdelta, ?_⟩
      rw [if_neg (by decide), if_neg (by decide), if_neg (by decide), if_neg (by decide)]
      simp only [Reader.bind_eq_ok_iff, u16_eq_ok_iff, many_types_eq_ok_iff]
      exact ⟨_, m₂, hcount, locals, m₃, ⟨hn.symm, hread⟩, _, m₄, hcount', stack, d,
        ⟨hn'.symm, hread'⟩, rfl⟩

private theorem reader_compact (h : c.Passes (kind.encode delta) d)
    (hcompact : delta.toNat ≤ maxCompactDelta) (hstorable : kind.Storable) :
    reader c = .ok ((delta, kind), d) := by
  have hback : UInt16.ofNat delta.toNat = delta := UInt16.ofNat_toNat
  have hle : delta.toNat ≤ 63 := hcompact
  cases kind with
  | same =>
      rw [← hback, encode_same hcompact] at h
      have htag : (UInt8.ofNat delta.toNat).toNat = delta.toNat :=
        UInt8.toNat_ofNat_of_lt' (show _ < 256 by omega)
      refine Reader.bind_eq_ok_iff.2 ⟨_, d, u8_eq_ok_iff.2 h, ?_⟩
      rw [htag, if_pos hle, hback]
      rfl
  | sameWithItem item =>
      rw [← hback, encode_sameWithItem hcompact] at h
      obtain ⟨m, h, hitem⟩ := passes_cons_iff.1 h
      have htag : (UInt8.ofNat (64 + delta.toNat)).toNat = 64 + delta.toNat :=
        UInt8.toNat_ofNat_of_lt' (show _ < 256 by omega)
      refine Reader.bind_eq_ok_iff.2 ⟨_, m, u8_eq_ok_iff.2 h, ?_⟩
      rw [htag, if_neg (by omega), if_pos (by omega), Nat.add_sub_cancel_left, hback,
        Reader.bind_eq_ok_iff]
      exact ⟨item, d, (VerificationType.reader_inverts _ _ _).2 hitem, rfl⟩
  | _ => exact reader_extended hstorable h

/-- A stored frame is one of the at most two forms of a kind that can be stored. -/
theorem reader_eq_ok_iff : reader c = .ok ((delta, kind), d) ↔
    kind.Storable ∧ (c.Passes (kind.encode delta) d ∨ c.Passes (kind.extended delta) d) := by
  constructor
  · exact passes_of_reader
  · intro h
    rcases h with ⟨hstorable, hencode | hextended⟩
    · by_cases hcompact : delta.toNat ≤ maxCompactDelta
      · exact reader_compact hencode hcompact hstorable
      · have hsame : kind.encode delta = kind.extended delta := by
          cases kind <;> simp [encode, extended, hcompact]
        exact reader_extended hstorable (hsame ▸ hencode)
    · exact reader_extended hstorable hextended

end FrameKind

namespace Frame

/-- What is stored of an offset behind the frame at `previous`. -/
def distance (previous : Option UInt16) (offset : UInt16) : UInt16 :=
  match previous with
  | none => offset
  | some previous => UInt16.ofNat (offset.toNat - previous.toNat - 1)

theorem delta?_eq_some_iff {previous : Option UInt16} {offset delta : UInt16} :
    delta? previous offset = some delta ↔
      (∀ earlier ∈ previous, earlier < offset) ∧ delta = distance previous offset := by
  cases previous with
  | none => simp [delta?, distance, eq_comm]
  | some earlier =>
      by_cases hlt : earlier < offset
      · simp [delta?, distance, hlt, eq_comm]
      · simp [delta?, hlt]

/-- The distance to a frame leads back to it. -/
theorem offset?_eq_some_iff {previous : Option UInt16} {offset delta : UInt16} :
    offset? previous delta = some offset ↔ delta? previous offset = some delta := by
  cases previous with
  | none => simp [offset?, delta?, eq_comm]
  | some earlier =>
      have hoffset : offset.toNat < 65536 := offset.toNat_lt
      have hdelta : delta.toNat < 65536 := delta.toNat_lt
      have hgap : offset? (some earlier) delta = some offset ↔
          offset.toNat = earlier.toNat + delta.toNat + 1 := by
        unfold offset? maxCodeLength
        dsimp only
        split
        · rename_i hle
          rw [Option.some.injEq, ← UInt16.toNat_inj,
            UInt16.toNat_ofNat_of_lt' (show _ < 65536 by omega)]
          exact eq_comm
        · rename_i hgt
          simp only [reduceCtorEq, false_iff]
          omega
      rw [hgap, delta?_eq_some_iff, distance, ← UInt16.toNat_inj,
        UInt16.toNat_ofNat_of_lt' (show _ < 65536 by omega)]
      simp only [Option.mem_some_iff, forall_eq', UInt16.lt_iff_toNat_lt]
      omega

end Frame

namespace StackMap

variable {previous : Option UInt16} {frames : StackMap}

/-- Every frame lies behind the one before it, the first one behind `previous`. -/
def Rising : Option UInt16 → StackMap → Prop
  | _, [] => True
  | previous, frame :: rest =>
    (∀ earlier ∈ previous, earlier < frame.offset) ∧ Rising (some frame.offset) rest

/-- The stored forms of frames behind `previous`. -/
def rows : Option UInt16 → StackMap → List Bytes
  | _, [] => []
  | previous, frame :: rest =>
    frame.kind.encode (Frame.distance previous frame.offset) :: rows (some frame.offset) rest

theorem frame_encode_eq_ok_iff {frame : Frame} {stored : Bytes} :
    frame.encode previous = .ok stored ↔ (∀ earlier ∈ previous, earlier < frame.offset) ∧
      stored = frame.kind.encode (Frame.distance previous frame.offset) := by
  unfold Frame.encode
  cases hdelta : Frame.delta? previous frame.offset with
  | none =>
      have hnot (delta : UInt16) : ¬ Frame.delta? previous frame.offset = some delta := by
        rw [hdelta]
        simp
      simp only [Frame.delta?_eq_some_iff, not_and] at hnot
      simp only [reduceCtorEq, false_iff, not_and]
      intro hbehind
      exact absurd rfl (hnot _ hbehind)
  | some delta =>
      obtain ⟨hbehind, rfl⟩ := Frame.delta?_eq_some_iff.1 hdelta
      rw [and_iff_right hbehind, Except.ok.injEq]
      exact eq_comm

private theorem mapM_encode_eq_ok_iff {stored : List Bytes} :
    (((previous :: frames.map (some ·.offset)).zip frames).mapM fun (previous, frame) =>
        frame.encode previous) = .ok stored ↔
      Rising previous frames ∧ stored = rows previous frames := by
  induction frames generalizing previous stored with
  | nil => simp [Rising, rows, List.mapM_nil]
  | cons frame rest ih =>
      simp only [List.map_cons, List.zip_cons_cons, List.mapM_cons, Outcome.bind_eq_ok_iff,
        Outcome.pure_eq_ok_iff, ih, frame_encode_eq_ok_iff, Rising, rows]
      constructor
      · intro h
        rcases h with ⟨_, ⟨hbehind, rfl⟩, _, ⟨hrest, rfl⟩, rfl⟩
        exact ⟨⟨hbehind, hrest⟩, rfl⟩
      · intro h
        rcases h with ⟨⟨hbehind, hrest⟩, rfl⟩
        exact ⟨_, ⟨hbehind, rfl⟩, _, ⟨hrest, rfl⟩, rfl⟩

theorem encode_eq_ok_iff {data : Bytes} :
    frames.encode = .ok data ↔ frames.length ≤ maxTableLength ∧ Rising none frames ∧
      data = bytes16 (UInt16.ofNat frames.length) ++ (rows none frames).flatten := by
  unfold encode previousOffsets
  by_cases hlength : maxTableLength < frames.length
  · simp [hlength, Outcome.bind_eq_ok_iff, Nat.not_le.2 hlength]
  · simp only [if_neg hlength, Outcome.bind_eq_ok_iff, mapM_encode_eq_ok_iff,
      Outcome.pure_eq_ok_iff, Nat.le_of_not_lt hlength, true_and]
    constructor
    · intro h
      rcases h with ⟨_, ⟨hrising, rfl⟩, rfl⟩
      exact ⟨hrising, rfl⟩
    · intro h
      rcases h with ⟨hrising, rfl⟩
      exact ⟨_, ⟨hrising, rfl⟩, rfl⟩

/-- Frames that are read one after the other behind `previous`. -/
def Yields : Option UInt16 → Cursor → StackMap → Cursor → Prop
  | _, c, [], d => d = c
  | previous, c, frame :: rest, d => ∃ delta m, FrameKind.reader c = .ok ((delta, frame.kind), m) ∧
    Frame.offset? previous delta = some frame.offset ∧ Yields (some frame.offset) m rest d

private theorem framesAfter_eq_ok_iff {found : List Frame} {count : Nat} :
    framesAfter found previous count c = .ok (frames, d) ↔ ∃ rest,
      frames = found.reverse ++ rest ∧ rest.length = count ∧ Yields previous c rest d := by
  induction count generalizing found previous c with
  | zero =>
      simp only [framesAfter, Reader.pure_eq_ok_iff]
      constructor
      · intro h
        rcases h with ⟨rfl, rfl⟩
        exact ⟨[], by simp, rfl, rfl⟩
      · intro h
        rcases h with ⟨rest, rfl, hlength, hyields⟩
        obtain rfl := List.eq_nil_of_length_eq_zero hlength
        exact ⟨by simp, hyields⟩
  | succ count ih =>
      simp only [framesAfter, Reader.bind_eq_ok_iff]
      constructor
      · intro h
        rcases h with ⟨⟨delta, kind⟩, m, hframe, h⟩
        cases hoffset : Frame.offset? previous delta with
        | none => simp [hoffset] at h
        | some offset =>
            simp only [hoffset, ih] at h
            rcases h with ⟨rest, rfl, rfl, hyields⟩
            exact ⟨{ offset, kind } :: rest, by simp, rfl, delta, m, hframe, hoffset, hyields⟩
      · intro h
        rcases h with ⟨rest, rfl, hlength, hyields⟩
        cases rest with
        | nil => cases hlength
        | cons frame rest =>
            rcases hyields with ⟨delta, m, hframe, hoffset, hyields⟩
            refine ⟨(delta, frame.kind), m, hframe, ?_⟩
            simp only [hoffset, ih]
            exact ⟨rest, by simp, Nat.succ.inj hlength, hyields⟩

theorem ofBytes_eq_ok_iff {data : Bytes} : ofBytes data = .ok frames ↔
    frames.length ≤ maxTableLength ∧ ∃ m d,
      (Cursor.ofBytes data).Passes (bytes16 (UInt16.ofNat frames.length)) m ∧
        Yields none m frames d ∧ d.ahead = [] := by
  unfold ofBytes reader
  simp only [read_eq_ok_iff, Reader.bind_eq_ok_iff, u16_eq_ok_iff, framesAfter_eq_ok_iff,
    finish_eq_ok_iff, Reader.pure_eq_ok_iff, List.reverse_nil, List.nil_append]
  constructor
  · intro h
    rcases h with ⟨d, count, m, hcount, _, _, ⟨_, rfl, hlength, hyields⟩, _, _, ⟨hend, rfl⟩, rfl,
      rfl⟩
    have hlt : count.toNat < 65536 := count.toNat_lt
    rw [hlength, UInt16.ofNat_toNat]
    refine ⟨?_, m, _, hcount, hyields, hend⟩
    unfold maxTableLength
    omega
  · intro h
    rcases h with ⟨hlength, m, d, hcount, hyields, hend⟩
    have hback : (UInt16.ofNat frames.length).toNat = frames.length :=
      UInt16.toNat_ofNat_of_lt' (Nat.lt_succ_of_le hlength)
    exact ⟨d, _, m, hcount, frames, d, ⟨frames, rfl, hback.symm, hyields⟩, (), d, ⟨hend, rfl⟩,
      rfl, rfl⟩

theorem Yields.storable (h : Yields previous c frames d) :
    Rising previous frames ∧ ∀ frame ∈ frames, frame.kind.Storable := by
  induction frames generalizing previous c with
  | nil => simp [Rising]
  | cons frame rest ih =>
      rcases h with ⟨delta, m, hframe, hoffset, hrest⟩
      obtain ⟨hrising, hstorable⟩ := ih hrest
      have hbehind := (Frame.delta?_eq_some_iff.1 (Frame.offset?_eq_some_iff.1 hoffset)).1
      have hkind := (FrameKind.reader_eq_ok_iff.1 hframe).1
      exact ⟨⟨hbehind, hrising⟩, List.forall_mem_cons.2 ⟨hkind, hstorable⟩⟩

theorem yields_of_rows (hrising : Rising previous frames)
    (hstorable : ∀ frame ∈ frames, frame.kind.Storable)
    (h : c.Passes (rows previous frames).flatten d) : Yields previous c frames d := by
  induction frames generalizing previous c with
  | nil => exact passes_nil_iff.1 h
  | cons frame rest ih =>
      rcases hrising with ⟨hbehind, hrest⟩
      obtain ⟨hkind, hkinds⟩ := List.forall_mem_cons.1 hstorable
      rw [rows, List.flatten_cons] at h
      obtain ⟨m, hframe, hrows⟩ := passes_append_iff.1 h
      exact ⟨_, m, FrameKind.reader_eq_ok_iff.2 ⟨hkind, .inl hframe⟩,
        Frame.offset?_eq_some_iff.2 (Frame.delta?_eq_some_iff.2 ⟨hbehind, rfl⟩),
        ih hrest hkinds hrows⟩

/-- The frames that are read from bytes can be written. -/
theorem storable_of_ofBytes {data : Bytes} (h : ofBytes data = .ok frames) :
    Rising none frames ∧ ∀ frame ∈ frames, frame.kind.Storable := by
  obtain ⟨-, _, _, -, hyields, -⟩ := ofBytes_eq_ok_iff.1 h
  exact hyields.storable

/-- What was written is read back. -/
theorem ofBytes_encode {data : Bytes} (hstorable : ∀ frame ∈ frames, frame.kind.Storable)
    (h : frames.encode = .ok data) : ofBytes data = .ok frames := by
  obtain ⟨hlength, hrising, rfl⟩ := encode_eq_ok_iff.1 h
  obtain ⟨m, hcount, hm⟩ := passes_skip (Cursor.ofBytes _) _ _ rfl
  obtain ⟨d, hrows, hd⟩ := passes_skip m (rows none frames).flatten [] (by simpa using hm)
  exact ofBytes_eq_ok_iff.2
    ⟨hlength, m, d, hcount, yields_of_rows hrising hstorable hrows, hd⟩

/-! ## What writing refuses and what it loses -/

/-- The first frame that does not lie behind the one before it is at an offset. -/
inductive FallsBackAt : Option UInt16 → StackMap → UInt16 → Prop
  | head {earlier : UInt16} {frame : Frame} {rest : StackMap} (back : frame.offset ≤ earlier) :
      FallsBackAt (some earlier) (frame :: rest) frame.offset
  | tail {previous : Option UInt16} {frame : Frame} {rest : StackMap} {offset : UInt16}
      (behind : ∀ earlier ∈ previous, earlier < frame.offset)
      (later : FallsBackAt (some frame.offset) rest offset) :
      FallsBackAt previous (frame :: rest) offset

theorem frame_encode_eq_error_iff {frame : Frame} {fault : Fault} :
    frame.encode previous = .error fault ↔
      (∃ earlier ∈ previous, frame.offset ≤ earlier) ∧
        fault = .malformed (.frameOrder frame.offset) := by
  unfold Frame.encode Frame.delta?
  cases previous with
  | none => simp
  | some earlier =>
      by_cases hlt : earlier < frame.offset
      · simp [hlt, UInt16.not_le.2 hlt]
      · simp [hlt, UInt16.not_lt.1 hlt, eq_comm]

private theorem mapM_encode_eq_error_iff {fault : Fault} :
    (((previous :: frames.map (some ·.offset)).zip frames).mapM fun (previous, frame) =>
        frame.encode previous) = .error fault ↔
      ∃ offset, FallsBackAt previous frames offset ∧ fault = .malformed (.frameOrder offset) := by
  induction frames generalizing previous with
  | nil =>
      constructor
      · intro h
        cases h
      · intro h
        rcases h with ⟨_, hfalls, -⟩
        cases hfalls
  | cons frame rest ih =>
      simp only [List.map_cons, List.zip_cons_cons, List.mapM_cons, Outcome.bind_eq_error_iff, ih,
        Outcome.pure_ne_error, and_false, exists_false, or_false, frame_encode_eq_error_iff,
        frame_encode_eq_ok_iff]
      constructor
      · intro h
        rcases h with ⟨⟨earlier, hprevious, hback⟩, rfl⟩ | ⟨_, ⟨hbehind, -⟩, offset, hlater, rfl⟩
        · obtain rfl : previous = some earlier := hprevious
          exact ⟨_, .head hback, rfl⟩
        · exact ⟨offset, .tail hbehind hlater, rfl⟩
      · intro h
        rcases h with ⟨offset, hfalls, rfl⟩
        cases hfalls with
        | head back => exact .inl ⟨⟨_, rfl, back⟩, rfl⟩
        | tail behind later => exact .inr ⟨_, ⟨behind, rfl⟩, offset, later, rfl⟩

theorem encode_eq_error_iff {fault : Fault} : frames.encode = .error fault ↔
    maxTableLength < frames.length ∧ fault = .malformed .tooManyFrames ∨
      frames.length ≤ maxTableLength ∧
        ∃ offset, FallsBackAt none frames offset ∧ fault = .malformed (.frameOrder offset) := by
  unfold encode previousOffsets
  by_cases hlength : maxTableLength < frames.length
  · simp only [if_pos hlength, Outcome.bind_eq_error_iff, Outcome.throw_eq_error_iff,
      Outcome.throw_ne_ok, false_and, exists_false, or_false]
    simp [hlength, Nat.not_le.2 hlength, eq_comm]
  · simp only [if_neg hlength, Outcome.bind_eq_error_iff, mapM_encode_eq_error_iff,
      Outcome.pure_ne_error, and_false, exists_false, or_false]
    simp [hlength, Nat.le_of_not_lt hlength]

/-- What becomes of a stack map that is written. -/
structure Writes (frames : StackMap) : Prop where
  accepted : (∃ data, frames.encode = .ok data) ↔
    frames.length ≤ maxTableLength ∧ Rising none frames
  refused : ∀ fault, frames.encode = .error fault ↔
    maxTableLength < frames.length ∧ fault = .malformed .tooManyFrames ∨
      frames.length ≤ maxTableLength ∧
        ∃ offset, FallsBackAt none frames offset ∧ fault = .malformed (.frameOrder offset)
  faithful : ∀ data, frames.encode = .ok data →
    (ofBytes data = .ok frames ↔ ∀ frame ∈ frames, frame.kind.Storable)

/-- A stack map is refused for its length and for the order of its frames, and what is written is
read back as the same stack map exactly if every frame has a stored form. -/
theorem encode_writes (frames : StackMap) : frames.Writes where
  accepted := by
    constructor
    · intro h
      rcases h with ⟨data, h⟩
      obtain ⟨hlength, hrising, -⟩ := encode_eq_ok_iff.1 h
      exact ⟨hlength, hrising⟩
    · intro h
      exact ⟨_, encode_eq_ok_iff.2 ⟨h.1, h.2, rfl⟩⟩
  refused _ := encode_eq_error_iff
  faithful := by
    intro data h
    constructor
    · intro hread
      exact (storable_of_ofBytes hread).2
    · intro hstorable
      exact ofBytes_encode hstorable h

/-- A full frame with one local more than its count can say. -/
def crowdedMap : StackMap := [{ offset := 0, kind := .full (List.replicate 65536 .top) [] }]

/-- Counts that a frame has no room for are not refused: the crowded frame is not read back, and
one that appends nothing is read as a frame of another kind. -/
theorem encode_loses_counts :
    (∃ data, crowdedMap.encode = .ok data ∧ ofBytes data ≠ .ok crowdedMap) ∧
      encode [{ offset := 9, kind := .append [] }] = .ok [0, 1, 251, 0, 9] ∧
      ofBytes [0, 1, 251, 0, 9] = .ok [{ offset := 9, kind := .same }] := by
  refine ⟨⟨_, encode_eq_ok_iff.2 ⟨by decide, ⟨by simp, trivial⟩, rfl⟩, ?_⟩, rfl, rfl⟩
  intro hread
  obtain ⟨hlocals, -⟩ := (storable_of_ofBytes hread).2 _ List.mem_cons_self
  rw [List.length_replicate] at hlocals
  exact absurd hlocals (by decide)

end StackMap

end CallProbe
