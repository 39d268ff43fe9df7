import CallProbe.Proofs.Bytes.Passage
import Mathlib.Order.Bounds.Basic

/-!
# The discipline of a cursor

Requests may come in any order, with any arguments and after any failures: the position stays within
the data, a request that fails leaves the cursor where it stood, and one that reads goes over
exactly the bytes that it answers with.

Positions and arguments are numbers of any size for a cursor, and after a failure it is still at
hand as it was. Where the position is a machine word that is changed in place, neither goes without
saying: a sum may run over, and a check may come too late. Every request is therefore written out
for such a position as well, and does the same there.
-/

namespace CallProbe

/-! ## Numbers -/

namespace IntFormat

def isSigned : IntFormat → Bool
  | u8 | u16 | u32 | u64 => false
  | i8 | i16 | i32 | i64 => true

/-- The number that bytes stand for, highest byte first. A signed format is in two's complement: of
the numbers with these last bytes it means the one from minus the half of `256 ^ width` up to below
that half. -/
def value (format : IntFormat) (bytes : Bytes) : Int :=
  if format.isSigned then Int.bmod (BigEndian.toNat bytes) (256 ^ format.width)
  else BigEndian.toNat bytes

example : value i16 [0xFF, 0xFE] = -2 ∧ value u16 [0xFF, 0xFE] = 65534 := by decide

end IntFormat

theorem Reader.take_eq (count : Nat) (c : Cursor) :
    take count c = if h : count ≤ c.ahead.length then .ok (c.ahead.take count, c.skip count h)
      else .error .outOfBounds := by
  by_cases h : count ≤ c.ahead.length
  · simp [take, h]
  · simp [take, h]

theorem IntFormat.reader_eq (format : IntFormat) (c : Cursor) :
    format.reader c =
      (Reader.take format.width c).map fun read => (format.value read.1, read.2) := by
  cases htake : Reader.take format.width c with
  | error fault =>
      cases format <;> simp only [IntFormat.width] at htake <;>
        simp [reader, Reader.u8, Reader.u16, Reader.u32, Reader.u64, Reader.i8, Reader.i16,
          Reader.i32, Reader.i64, bind, StateT.bind, Except.bind, htake, Except.map]
  | ok read =>
      rcases read with ⟨bytes, next⟩
      -- The number fits its format, so an unsigned one is kept as it is.
      have hfits := BigEndian.toNat_lt bytes
      rw [(Reader.take_eq_ok_iff.1 htake).1] at hfits
      change format.reader c = .ok (format.value bytes, next)
      cases format <;> simp only [IntFormat.width] at htake hfits <;>
        simp [reader, Reader.u8, Reader.u16, Reader.u32, Reader.u64, Reader.i8, Reader.i16,
          Reader.i32, Reader.i64, Reader.map_eq_ok_iff, htake, value, isSigned, width] <;>
        omega

namespace Cursor

/-! ## What a request comes to -/

/-- Moves over `count` bytes and answers with something made of them. -/
def passOver (c : Cursor) (count : Nat) (answer : Bytes → Answer) :
    Except Fault Answer × Cursor :=
  if h : count ≤ c.ahead.length then (.ok (answer (c.ahead.take count)), c.skip count h)
  else (.error .outOfBounds, c)

variable {c next : Cursor} {count : Nat} {answer : Bytes → Answer} {result : Answer} {fault : Fault}

theorem passOver_eq_ok_iff : c.passOver count answer = (.ok result, next) ↔
    ∃ bytes, bytes.length = count ∧ c.Passes bytes next ∧ result = answer bytes := by
  have htake := Reader.take_eq count c
  unfold passOver
  split
  · rename_i h
    rw [dif_pos h] at htake
    simp only [Prod.mk.injEq, Except.ok.injEq]
    constructor
    · rintro ⟨rfl, rfl⟩
      obtain ⟨hlength, hpasses⟩ := Reader.take_eq_ok_iff.1 htake
      exact ⟨_, hlength, hpasses, rfl⟩
    · rintro ⟨bytes, hlength, hpasses, rfl⟩
      have heq := htake.symm.trans (Reader.take_eq_ok_iff.2 ⟨hlength, hpasses⟩)
      simp only [Except.ok.injEq, Prod.mk.injEq] at heq
      exact ⟨congrArg answer heq.1, heq.2⟩
  · rename_i h
    simp only [Prod.mk.injEq, reduceCtorEq, false_and, false_iff, not_exists, not_and]
    rintro bytes rfl hpasses
    exact absurd (by simp [hpasses.ahead]) h

theorem passOver_eq_error_iff : c.passOver count answer = (.error fault, next) ↔
    c.data.length < c.pos + count ∧ fault = .outOfBounds ∧ next = c := by
  have hleft : c.ahead.length = c.data.length - c.pos := c.remaining_eq
  have hwithin := c.pos_le
  unfold passOver
  split
  · rename_i h
    simp only [Prod.mk.injEq, reduceCtorEq, false_and, false_iff, not_and]
    omega
  · rename_i h
    have hlt : c.data.length < c.pos + count := by omega
    simp [hlt, eq_comm]

theorem perform_of_ok {request : Request} (h : request.reader c = .ok (result, next)) :
    c.perform request = (.ok result, next) := by
  unfold perform
  rw [h]

theorem perform_of_error {request : Request} (h : request.reader c = .error fault) :
    c.perform request = (.error fault, c) := by
  unfold perform
  rw [h]

theorem perform_eq_passOver {request : Request}
    (h : request.reader c = (Reader.take count c).map fun read => (answer read.1, read.2)) :
    c.perform request = c.passOver count answer := by
  unfold passOver
  rw [Reader.take_eq] at h
  split
  · rename_i henough
    rw [dif_pos henough] at h
    exact perform_of_ok h
  · rename_i hshort
    rw [dif_neg hshort] at h
    exact perform_of_error h

theorem perform_integer (c : Cursor) (format : IntFormat) :
    c.perform (.integer format) =
      c.passOver format.width fun bytes => .integer (format.value bytes) := by
  apply perform_eq_passOver
  change (format.reader c >>= fun read => Except.ok (Answer.integer read.1, read.2)) = _
  rw [IntFormat.reader_eq]
  cases Reader.take format.width c <;> rfl

theorem perform_bytes (c : Cursor) (count : Nat) :
    c.perform (.bytes count) = c.passOver count .bytes := by
  apply perform_eq_passOver
  change (Reader.take count c >>= fun read => Except.ok (Answer.bytes read.1, read.2)) = _
  cases Reader.take count c <;> rfl

theorem perform_advance (c : Cursor) (count : Nat) :
    c.perform (.advance count) = c.passOver count fun _ => .moved := by
  apply perform_eq_passOver
  change (Reader.advance count c >>= fun read => Except.ok (Answer.moved, read.2)) = _
  change ((Reader.take count c >>= fun read => Except.ok ((), read.2)) >>= _) = _
  cases Reader.take count c <;> rfl

theorem perform_align (c : Cursor) (alignment : Nat) :
    c.perform (.align alignment) = c.perform (.advance (padding alignment c.pos)) := rfl

theorem perform_seek (c : Cursor) (target : Nat) :
    c.perform (.seek target) = if h : target ≤ c.data.length then
      (.ok .moved, {
        data := c.data, pos := target, ahead := c.data.drop target, ahead_eq := rfl, pos_le := h })
    else (.error .outOfBounds, c) := by
  by_cases hwithin : target ≤ c.data.length
  · rw [dif_pos hwithin]
    apply perform_of_ok
    change (c.seek target).map (Answer.moved, ·) = _
    rw [seek, dif_pos hwithin]
    rfl
  · rw [dif_neg hwithin]
    apply perform_of_error
    change (c.seek target).map (Answer.moved, ·) = _
    rw [seek, dif_neg hwithin]
    rfl

theorem perform_peek (c : Cursor) : c.perform .peek =
    (c.data[c.pos]?.elim (.error .outOfBounds) fun byte => .ok (.integer byte.toNat), c) := by
  have hahead : c.data[c.pos]? = c.ahead.head? := by
    rw [c.ahead_eq, List.head?_drop]
  rw [hahead]
  cases hrest : c.ahead with
  | nil =>
      apply perform_of_error
      change c.peek.map _ = _
      rw [peek, hrest]
      rfl
  | cons byte rest =>
      apply perform_of_ok
      change c.peek.map _ = _
      rw [peek, hrest]
      rfl

/-- The padding leads to the next multiple. -/
theorem isLeast_add_padding {alignment : Nat} (hpos : 0 < alignment) (pos : Nat) :
    IsLeast {multiple | alignment ∣ multiple ∧ pos ≤ multiple} (pos + padding alignment pos) := by
  have hrest := Nat.mod_lt pos hpos
  have hsplit := Nat.div_add_mod pos alignment
  rcases Nat.eq_zero_or_pos (pos % alignment) with hzero | hrestPos
  · -- Already there.
    have hnone : padding alignment pos = 0 := by simp [padding, hzero]
    rw [hnone]
    exact ⟨⟨Nat.dvd_of_mod_eq_zero hzero, Nat.le_refl pos⟩, fun _ h => h.2⟩
  · have hpadding : padding alignment pos = alignment - pos % alignment :=
      Nat.mod_eq_of_lt (by omega)
    have hnext : pos + padding alignment pos = alignment * (pos / alignment + 1) := by
      rw [hpadding, Nat.mul_add, Nat.mul_one]
      omega
    rw [hnext]
    refine ⟨⟨Nat.dvd_mul_right _ _, by rw [← hnext]; omega⟩, ?_⟩
    rintro _ ⟨⟨factor, rfl⟩, hle⟩
    -- A factor no larger than the quotient falls short of `pos`.
    have hfactor : pos / alignment < factor := by
      apply Nat.lt_of_mul_lt_mul_left (a := alignment)
      omega
    exact Nat.mul_le_mul_left alignment hfactor

/-- Alignment to multiples of nothing is not asked for. -/
def Request.WellPosed : Request → Prop
  | .align alignment => 0 < alignment
  | _ => True

/-- How far the data has to go for a request to be met. -/
def Request.reach (pos : Nat) : Request → Nat
  | .integer format => pos + format.width
  | .bytes count | .advance count => pos + count
  | .seek target => target
  | .align alignment => pos + padding alignment pos
  | .peek => pos + 1

/-- `answer` and `next` are what the request is there for: the number or the bytes that are passed
over, or a move to where it asks for. -/
def Request.Met (c : Cursor) (answer : Answer) (next : Cursor) : Request → Prop
  | .integer format => ∃ bytes, bytes.length = format.width ∧ c.Passes bytes next ∧
      answer = .integer (format.value bytes)
  | .bytes count => ∃ bytes, bytes.length = count ∧ c.Passes bytes next ∧ answer = .bytes bytes
  | .seek target => next.data = c.data ∧ next.pos = target ∧ answer = .moved
  | .advance count => next.data = c.data ∧ next.pos = c.pos + count ∧ answer = .moved
  | .align alignment => next.data = c.data ∧
      IsLeast {multiple | alignment ∣ multiple ∧ c.pos ≤ multiple} next.pos ∧ answer = .moved
  | .peek => ∃ byte, c.data[c.pos]? = some byte ∧ next = c ∧ answer = .integer byte.toNat

theorem perform_advance_eq_ok_iff : c.perform (.advance count) = (.ok result, next) ↔
    next.data = c.data ∧ next.pos = c.pos + count ∧ result = .moved := by
  constructor
  · intro h
    rw [perform_advance, passOver_eq_ok_iff] at h
    obtain ⟨bytes, rfl, hpasses, rfl⟩ := h
    exact ⟨hpasses.data, hpasses.pos, rfl⟩
  · rintro ⟨hdata, hpos, rfl⟩
    have hleft : c.ahead.length = c.data.length - c.pos := c.remaining_eq
    have hwithin := next.pos_le
    rw [hdata, hpos] at hwithin
    have henough : count ≤ c.ahead.length := by omega
    have hnext : c.skip count henough = next := Cursor.ext hdata.symm hpos.symm
    rw [perform_advance, passOver, dif_pos henough, hnext]

theorem perform_seek_eq_ok_iff {target : Nat} : c.perform (.seek target) = (.ok result, next) ↔
    next.data = c.data ∧ next.pos = target ∧ result = .moved := by
  rw [perform_seek]
  constructor
  · intro h
    split at h
    · cases h
      exact ⟨rfl, rfl, rfl⟩
    · cases h
  · rintro ⟨hdata, rfl, rfl⟩
    have hwithin := next.pos_le
    rw [hdata] at hwithin
    rw [dif_pos hwithin]
    congr 1
    exact Cursor.ext hdata.symm rfl

theorem perform_eq_ok_iff {request : Request} (hposed : request.WellPosed) :
    c.perform request = (.ok result, next) ↔ request.Met c result next := by
  cases request with
  | integer format =>
      rw [perform_integer]
      exact passOver_eq_ok_iff
  | bytes count =>
      rw [perform_bytes]
      exact passOver_eq_ok_iff
  | seek target => exact perform_seek_eq_ok_iff
  | advance count => exact perform_advance_eq_ok_iff
  | align alignment =>
      rw [perform_align, perform_advance_eq_ok_iff]
      have hleast := isLeast_add_padding hposed c.pos
      refine and_congr_right fun _ => and_congr_left fun _ => ⟨fun hnext => ?_, fun h => ?_⟩
      · rwa [hnext]
      · exact h.unique hleast
  | peek =>
      rw [perform_peek, Request.Met]
      cases c.data[c.pos]? with
      | none => simp
      | some byte => simp [eq_comm, and_comm]

theorem perform_eq_error_iff {request : Request} : c.perform request = (.error fault, next) ↔
    c.data.length < request.reach c.pos ∧ fault = .outOfBounds ∧ next = c := by
  cases request with
  | integer format =>
      rw [perform_integer]
      exact passOver_eq_error_iff
  | bytes count =>
      rw [perform_bytes]
      exact passOver_eq_error_iff
  | seek target =>
      rw [perform_seek, Request.reach]
      split
      · rename_i h
        simp [Nat.not_lt.2 h]
      · rename_i h
        simp [Nat.not_le.1 h, eq_comm]
  | advance count =>
      rw [perform_advance]
      exact passOver_eq_error_iff
  | align alignment =>
      rw [perform_align, perform_advance]
      exact passOver_eq_error_iff
  | peek =>
      rw [perform_peek, Request.reach]
      cases hnext : c.data[c.pos]? with
      | none =>
          have hend := List.getElem?_eq_none_iff.1 hnext
          simp [Nat.lt_succ_of_le hend, eq_comm]
      | some byte =>
          obtain ⟨hlt, -⟩ := List.getElem?_eq_some_iff.1 hnext
          simp [Nat.not_lt.2 (Nat.succ_le_of_lt hlt)]

end Cursor

/-! ## Positions in machine words -/

/-- A computation on a position that is kept in a machine word and changed in place. What it has
done by the time it fails stays done. -/
abbrev InPlace (α : Type) := ExceptT Fault (StateM UInt64) α

namespace InPlace

variable (data : Bytes)

def size : UInt64 := UInt64.ofNat data.length

/-- What lies ahead; nothing, for a position past the end. -/
def remaining (pos : UInt64) : UInt64 := if pos ≤ size data then size data - pos else 0

def slice (start stop : UInt64) : Bytes := (data.take stop.toNat).drop start.toNat

def integer (format : IntFormat) : InPlace Int := do
  let pos ← get
  let stop := pos + UInt64.ofNat format.width
  -- A sum that is less than one of its parts has run over.
  if stop < pos ∨ size data < stop then throw Fault.outOfBounds
  set stop
  return format.value (slice data pos stop)

def bytes (count : UInt64) : InPlace Bytes := do
  let pos ← get
  if remaining data pos < count then throw Fault.outOfBounds
  set (pos + count)
  return slice data pos (pos + count)

def seek (target : UInt64) : InPlace Unit := do
  if size data < target then throw Fault.outOfBounds
  set target

def advance (count : UInt64) : InPlace Unit := do
  let pos ← get
  if remaining data pos < count then throw Fault.outOfBounds
  set (pos + count)

def align (alignment : UInt64) : InPlace Unit := do
  let pos ← get
  advance data ((alignment - pos % alignment) % alignment)

def peek : InPlace UInt8 := do
  let pos ← get
  match data[pos.toNat]? with
  | some byte => return byte
  | none => throw Fault.outOfBounds

variable {data} {pos : UInt64}

theorem toNat_size (hsize : data.length < UInt64.size) : (size data).toNat = data.length :=
  UInt64.toNat_ofNat_of_lt' hsize

theorem toNat_remaining (hsize : data.length < UInt64.size) (hpos : pos.toNat ≤ data.length) :
    (remaining data pos).toNat = data.length - pos.toNat := by
  have hle : pos ≤ size data := by
    rw [UInt64.le_iff_toNat_le, toNat_size hsize]
    exact hpos
  rw [remaining, if_pos hle, UInt64.toNat_sub_of_le _ _ hle, toNat_size hsize]

theorem remaining_lt_iff (hsize : data.length < UInt64.size) (hpos : pos.toNat ≤ data.length)
    {count : UInt64} : remaining data pos < count ↔ data.length < pos.toNat + count.toNat := by
  rw [UInt64.lt_iff_toNat_lt, toNat_remaining hsize hpos]
  omega

/-- Within the data, sums do not run over. -/
theorem toNat_add (hsize : data.length < UInt64.size) {count : UInt64}
    (hwithin : pos.toNat + count.toNat ≤ data.length) :
    (pos + count).toNat = pos.toNat + count.toNat := by
  rw [UInt64.toNat_add]
  exact Nat.mod_eq_of_lt (Nat.lt_of_le_of_lt hwithin hsize)

theorem slice_add (hsize : data.length < UInt64.size) {count : UInt64}
    (hwithin : pos.toNat + count.toNat ≤ data.length) :
    slice data pos (pos + count) = (data.drop pos.toNat).take count.toNat := by
  rw [slice, toNat_add hsize hwithin, List.drop_take, Nat.add_sub_cancel_left]

theorem bytes_eq (hsize : data.length < UInt64.size) (hpos : pos.toNat ≤ data.length)
    (count : UInt64) : bytes data count pos =
      if data.length < pos.toNat + count.toNat then (.error .outOfBounds, pos)
      else (.ok ((data.drop pos.toNat).take count.toNat), pos + count) := by
  change (if remaining data pos < count then _ else _ : InPlace Bytes) pos = _
  simp only [remaining_lt_iff hsize hpos]
  split
  · rfl
  · rename_i hwithin
    rw [← slice_add hsize (Nat.not_lt.1 hwithin)]
    rfl

theorem advance_eq (hsize : data.length < UInt64.size) (hpos : pos.toNat ≤ data.length)
    (count : UInt64) : advance data count pos =
      if data.length < pos.toNat + count.toNat then (.error .outOfBounds, pos)
      else (.ok (), pos + count) := by
  change (if remaining data pos < count then _ else _ : InPlace Unit) pos = _
  simp only [remaining_lt_iff hsize hpos]
  split <;> rfl

theorem seek_eq (hsize : data.length < UInt64.size) (target : UInt64) : seek data target pos =
      if data.length < target.toNat then (.error .outOfBounds, pos) else (.ok (), target) := by
  have hpast : size data < target ↔ data.length < target.toNat := by
    rw [UInt64.lt_iff_toNat_lt, toNat_size hsize]
  change (if size data < target then _ else _ : InPlace Unit) pos = _
  simp only [hpast]
  split <;> rfl

theorem integer_eq (hsize : data.length < UInt64.size) (hpos : pos.toNat ≤ data.length)
    (format : IntFormat) : integer data format pos =
      if data.length < pos.toNat + format.width then (.error .outOfBounds, pos)
      else (.ok (format.value ((data.drop pos.toNat).take format.width)),
        pos + UInt64.ofNat format.width) := by
  have hwidth : (UInt64.ofNat format.width).toNat = format.width := by cases format <;> rfl
  have hpast : (pos + UInt64.ofNat format.width < pos ∨
      size data < pos + UInt64.ofNat format.width) ↔
      data.length < pos.toNat + (UInt64.ofNat format.width).toNat := by
    rw [UInt64.lt_iff_toNat_lt, UInt64.lt_iff_toNat_lt, toNat_size hsize, UInt64.toNat_add]
    have := pos.toNat_lt
    have := (UInt64.ofNat format.width).toNat_lt
    rw [UInt64.size] at hsize
    omega
  change (if pos + UInt64.ofNat format.width < pos ∨ size data < pos + UInt64.ofNat format.width
    then _ else _ : InPlace Int) pos = _
  simp only [hpast]
  rw [hwidth]
  split
  · rfl
  · rename_i hwithin
    rw [Nat.not_lt, ← hwidth] at hwithin
    have hslice := slice_add hsize hwithin
    rw [hwidth] at hslice
    rw [← hslice]
    rfl

theorem peek_eq (pos : UInt64) : peek data pos =
    (data[pos.toNat]?.elim (.error .outOfBounds) .ok, pos) := by
  unfold peek
  change (match data[pos.toNat]? with
    | some byte => _
    | none => _ : InPlace UInt8) pos = _
  cases data[pos.toNat]? <;> rfl

theorem toNat_padding {alignment : UInt64} (hposed : 0 < alignment.toNat) :
    ((alignment - pos % alignment) % alignment).toNat =
      Cursor.padding alignment.toNat pos.toNat := by
  have hrest : pos % alignment ≤ alignment := by
    rw [UInt64.le_iff_toNat_le, UInt64.toNat_mod]
    exact (Nat.mod_lt _ hposed).le
  rw [UInt64.toNat_mod, UInt64.toNat_sub_of_le _ _ hrest, UInt64.toNat_mod]
  rfl

theorem align_eq {alignment : UInt64} (hposed : 0 < alignment.toNat) : align data alignment pos =
      advance data (UInt64.ofNat (Cursor.padding alignment.toNat pos.toNat)) pos := by
  change advance data ((alignment - pos % alignment) % alignment) pos = _
  rw [← toNat_padding hposed, UInt64.ofNat_toNat]

theorem map_apply {α β : Type} (f : α → β) (action : InPlace α) (pos : UInt64) :
    (f <$> action) pos = ((action pos).1.map f, (action pos).2) := by
  change ExceptT.bindCont (m := StateM UInt64) (fun value => pure (f value))
    (action pos).1 (action pos).2 = _
  rcases action pos with ⟨fault | value, left⟩ <;> rfl

end InPlace

namespace Cursor

/-- The arguments of a request are machine words. -/
def Request.FitsWord : Request → Prop
  | .integer _ | .peek => True
  | .bytes argument | .seek argument | .advance argument | .align argument =>
    argument < UInt64.size

/-- A request to a position that is kept in place. -/
def Request.inPlace (data : Bytes) : Request → InPlace Answer
  | .integer format => .integer <$> InPlace.integer data format
  | .bytes count => .bytes <$> InPlace.bytes data (UInt64.ofNat count)
  | .seek target => (fun _ => .moved) <$> InPlace.seek data (UInt64.ofNat target)
  | .advance count => (fun _ => .moved) <$> InPlace.advance data (UInt64.ofNat count)
  | .align alignment => (fun _ => .moved) <$> InPlace.align data (UInt64.ofNat alignment)
  | .peek => (fun byte => .integer byte.toNat) <$> InPlace.peek data

/-- What can be seen of an outcome where the position is a machine word. -/
def observe (outcome : Except Fault Answer × Cursor) : Except Fault Answer × UInt64 :=
  (outcome.1, UInt64.ofNat outcome.2.pos)

theorem observe_passOver (c : Cursor) (count : Nat) (answer : Bytes → Answer) :
    observe (c.passOver count answer) =
      if c.data.length < c.pos + count then (.error .outOfBounds, UInt64.ofNat c.pos)
      else (.ok (answer ((c.data.drop c.pos).take count)),
        UInt64.ofNat c.pos + UInt64.ofNat count) := by
  have hleft : c.ahead.length = c.data.length - c.pos := c.remaining_eq
  have hwithin := c.pos_le
  unfold passOver
  split
  · rename_i h
    rw [if_neg (by omega), ← UInt64.ofNat_add, ← c.ahead_eq]
    rfl
  · rename_i h
    rw [if_pos (by omega)]
    rfl

variable {c : Cursor}

theorem toNat_pos (hsize : c.data.length < UInt64.size) : (UInt64.ofNat c.pos).toNat = c.pos :=
  UInt64.toNat_ofNat_of_lt' (Nat.lt_of_le_of_lt c.pos_le hsize)

theorem inPlace_advance (hsize : c.data.length < UInt64.size) {count : Nat}
    (hfits : count < UInt64.size) :
    (Request.advance count).inPlace c.data (UInt64.ofNat c.pos) =
      observe (c.perform (.advance count)) := by
  have hpos := toNat_pos hsize
  have hwithin := c.pos_le
  rw [← hpos] at hwithin
  rw [perform_advance, observe_passOver, Request.inPlace, InPlace.map_apply,
    InPlace.advance_eq hsize hwithin, hpos, UInt64.toNat_ofNat_of_lt' hfits]
  split <;> rfl

theorem inPlace_eq (hsize : c.data.length < UInt64.size) {request : Request}
    (hposed : request.WellPosed) (hfits : request.FitsWord) :
    request.inPlace c.data (UInt64.ofNat c.pos) = observe (c.perform request) := by
  have hpos := toNat_pos hsize
  have hwithin := c.pos_le
  rw [← hpos] at hwithin
  cases request with
  | integer format =>
      rw [perform_integer, observe_passOver, Request.inPlace, InPlace.map_apply,
        InPlace.integer_eq hsize hwithin, hpos]
      split <;> rfl
  | bytes count =>
      rw [perform_bytes, observe_passOver, Request.inPlace, InPlace.map_apply,
        InPlace.bytes_eq hsize hwithin, hpos, UInt64.toNat_ofNat_of_lt' hfits]
      split <;> rfl
  | seek target =>
      rw [perform_seek, Request.inPlace, InPlace.map_apply, InPlace.seek_eq hsize,
        UInt64.toNat_ofNat_of_lt' hfits]
      split
      · rename_i hpast
        rw [dif_neg (Nat.not_le.2 hpast)]
        rfl
      · rename_i hinside
        rw [dif_pos (Nat.not_lt.1 hinside)]
        rfl
  | advance count => exact inPlace_advance hsize hfits
  | align alignment =>
      have halignment := UInt64.toNat_ofNat_of_lt' hfits
      have hpadding : padding alignment c.pos < UInt64.size :=
        Nat.lt_trans (Nat.mod_lt _ hposed) hfits
      have hword : 0 < (UInt64.ofNat alignment).toNat := by
        rw [halignment]
        exact hposed
      rw [perform_align, ← inPlace_advance hsize hpadding, Request.inPlace, Request.inPlace,
        InPlace.map_apply, InPlace.map_apply, InPlace.align_eq hword, hpos, halignment]
  | peek =>
      rw [perform_peek, Request.inPlace, InPlace.map_apply, InPlace.peek_eq, hpos]
      cases c.data[c.pos]? <;> rfl

/-! ## Any history -/

/-- The cursor behind some requests, whichever of them have failed. -/
def performAll (c : Cursor) (requests : List Request) : Cursor :=
  requests.foldl (fun c request => (c.perform request).2) c

theorem data_passOver (c : Cursor) (count : Nat) (answer : Bytes → Answer) :
    (c.passOver count answer).2.data = c.data := by
  unfold passOver
  split <;> rfl

theorem data_perform (c : Cursor) (request : Request) : (c.perform request).2.data = c.data := by
  cases request with
  | integer format =>
      rw [perform_integer]
      exact c.data_passOver _ _
  | bytes count =>
      rw [perform_bytes]
      exact c.data_passOver _ _
  | seek target =>
      rw [perform_seek]
      split <;> rfl
  | advance count =>
      rw [perform_advance]
      exact c.data_passOver _ _
  | align alignment =>
      rw [perform_align, perform_advance]
      exact c.data_passOver _ _
  | peek =>
      rw [perform_peek]

theorem data_performAll (c : Cursor) (requests : List Request) :
    (c.performAll requests).data = c.data := by
  induction requests generalizing c with
  | nil => rfl
  | cons request rest ih =>
      change ((c.perform request).2.performAll rest).data = c.data
      rw [ih, data_perform]

/-- What holds of a cursor over `data` between two requests, and of the next one. -/
structure Disciplined (data : Bytes) (c : Cursor) : Prop where
  data_eq : c.data = data
  pos_le : c.pos ≤ data.length
  remaining : c.remaining = data.length - c.pos
  hasMore : c.hasMore = true ↔ c.pos < data.length
  /-- Where a request succeeds, it is met, and where it can be met, it succeeds. -/
  met : ∀ {request answer next}, request.WellPosed →
    (c.perform request = (.ok answer, next) ↔ request.Met c answer next)
  /-- It fails where it goes further than the data and nowhere else, and then the cursor stays. -/
  refused : ∀ {request fault next}, c.perform request = (.error fault, next) ↔
    data.length < request.reach c.pos ∧ fault = .outOfBounds ∧ next = c
  /-- A machine word that is changed in place gives the same answer and the same position. -/
  inPlace : data.length < UInt64.size → ∀ {request : Request}, request.WellPosed →
    request.FitsWord → request.inPlace data (UInt64.ofNat c.pos) = observe (c.perform request)

theorem hasMore_iff (c : Cursor) : c.hasMore = true ↔ c.pos < c.data.length := by
  have hleft : c.ahead.length = c.data.length - c.pos := c.remaining_eq
  rw [hasMore, Bool.not_eq_true', List.isEmpty_eq_false_iff, ← List.length_pos_iff]
  omega

/-- Requests of any kind, with any arguments and in any order, keep the discipline. -/
theorem requests_disciplined (data : Bytes) (requests : List Request) :
    Disciplined data ((ofBytes data).performAll requests) := by
  have hdata : ((ofBytes data).performAll requests).data = data :=
    data_performAll (ofBytes data) requests
  generalize (ofBytes data).performAll requests = c at hdata
  subst hdata
  exact {
    data_eq := rfl
    pos_le := c.pos_le
    remaining := c.remaining_eq
    hasMore := c.hasMore_iff
    met := perform_eq_ok_iff
    refused := perform_eq_error_iff
    inPlace := inPlace_eq }

example : ((ofBytes [1, 2, 3, 4, 5]).performAll
    [.integer .u16, .bytes 4, .align 4, .seek 6, .peek]).pos = 4 := by decide

end Cursor

end CallProbe
