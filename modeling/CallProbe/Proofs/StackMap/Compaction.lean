import CallProbe.Proofs.StackMap.Storage

/-!
# Stack maps are stored in their shortest form

The two common kinds of frames have a long form, which a distance of up to 63 does not need. Reading
forgets which form a frame was stored in and writing takes the short one. `Compacts` counts what
this saves: two bytes for each frame whose long form was not needed, and nothing else changes.
-/

namespace CallProbe

open Reader Cursor

variable {c d : Cursor}

/-- The bytes that a reader moves over. -/
def Reader.passed {α : Type} (reader : Reader α) : Reader Bytes := fun c =>
  (reader c).map fun (_, next) => (c.ahead.take (next.pos - c.pos), next)

theorem Reader.passed_of_passes {α : Type} {reader : Reader α} {a : α} {bytes : Bytes}
    (h : reader c = .ok (a, d)) (hpasses : c.Passes bytes d) :
    reader.passed c = .ok (bytes, d) := by
  have hcount : d.pos - c.pos = bytes.length := by
    rw [hpasses.pos]
    omega
  unfold Reader.passed
  rw [h]
  dsimp only [Except.map]
  rw [hcount, hpasses.ahead, List.take_left]

/-! ## Savings -/

/-- `stored` takes up two bytes less than `data` for each of the long forms that were not needed,
and without any it is the same. -/
structure Compacts (longForms : Nat) (data stored : Bytes) : Prop where
  length : stored.length + 2 * longForms = data.length
  eq_of_none : longForms = 0 → stored = data

namespace Compacts

variable {m n : Nat} {data data' stored stored' : Bytes}

theorem refl (data : Bytes) : Compacts 0 data data := ⟨rfl, fun _ => rfl⟩

theorem append (h : Compacts m data stored) (h' : Compacts n data' stored') :
    Compacts (m + n) (data ++ data') (stored ++ stored') := by
  constructor
  · have hfront := h.length
    have hback := h'.length
    simp only [List.length_append]
    omega
  · intro hnone
    rw [h.eq_of_none (by omega), h'.eq_of_none (by omega)]

/-- Behind something that is stored as it was. -/
theorem behind (h : Compacts n data stored) (front : Bytes) :
    Compacts n (front ++ data) (front ++ stored) :=
  Nat.zero_add n ▸ (refl front).append h

theorem eq_iff (h : Compacts n data stored) : stored = data ↔ n = 0 := by
  constructor
  · intro heq
    have hlength := h.length
    rw [heq] at hlength
    omega
  · exact h.eq_of_none

end Compacts

/-! ## Frames -/

namespace FrameKind

variable {delta : UInt16} {kind : FrameKind}

/-- Whether a stored frame has the long form of a kind that stays in place of the locals, with a
distance that the short form has room for. -/
def usesLongForm : Bytes → Bool
  | tag :: high :: low :: _ =>
    (tag == 247 || tag == 251) && decide (BigEndian.toNat [high, low] ≤ maxCompactDelta)
  | _ => false

theorem usesLongForm_of_delta (tag : UInt8) (delta : UInt16) (back : Bytes) :
    usesLongForm (tag :: bytes16 delta ++ back) =
      ((tag == 247 || tag == 251) && decide (delta.toNat ≤ maxCompactDelta)) := by
  obtain ⟨high, low, hbytes⟩ := List.length_eq_two.1 (length_bytes16 delta)
  rw [hbytes, List.cons_append, List.cons_append, List.cons_append, usesLongForm, ← hbytes,
    toNat_bytes16]

theorem usesLongForm_same (delta : UInt16) :
    usesLongForm (251 :: bytes16 delta) = decide (delta.toNat ≤ maxCompactDelta) := by
  have hlong := usesLongForm_of_delta 251 delta []
  rw [List.append_nil] at hlong
  rw [hlong]
  rfl

theorem usesLongForm_of_ne {tag : UInt8} (back : Bytes) (hitem : tag.toNat ≠ 247)
    (hsame : tag.toNat ≠ 251) : usesLongForm (tag :: back) = false := by
  unfold usesLongForm
  split
  · rename_i heq
    cases heq
    simp only [Bool.and_eq_false_iff, Bool.or_eq_false_iff, beq_eq_false_iff_ne]
    refine .inl ⟨?_, ?_⟩
    · rintro rfl
      exact hitem rfl
    · rintro rfl
      exact hsame rfl
  · rfl

/-- What is written never is a long form that was not needed. -/
theorem usesLongForm_encode (h : kind.Storable) : usesLongForm (kind.encode delta) = false := by
  cases kind with
  | same =>
      rw [encode]
      by_cases hnear : delta.toNat ≤ maxCompactDelta
      · rw [if_pos hnear]
        rfl
      · rw [if_neg hnear, usesLongForm_same]
        exact decide_eq_false hnear
  | sameWithItem item =>
      rw [encode]
      by_cases hnear : delta.toNat ≤ maxCompactDelta
      · have hle : delta.toNat ≤ 63 := hnear
        have htag : (UInt8.ofNat (64 + delta.toNat)).toNat = 64 + delta.toNat :=
          UInt8.toNat_ofNat_of_lt' (show _ < 256 by omega)
        rw [if_pos hnear]
        exact usesLongForm_of_ne _ (by omega) (by omega)
      · rw [if_neg hnear, usesLongForm_of_delta]
        simp [hnear]
  | chop count =>
      rcases h with ⟨hlow, hhigh⟩
      have htag : (251 - count).toNat = 251 - count.toNat := toNat_chop (by omega)
      exact usesLongForm_of_ne _ (by omega) (by omega)
  | append locals =>
      rcases h with ⟨hlow, hhigh⟩
      have htag : (UInt8.ofNat (251 + locals.length)).toNat = 251 + locals.length :=
        UInt8.toNat_ofNat_of_lt' (show _ < 256 by omega)
      exact usesLongForm_of_ne _ (by omega) (by omega)
  | full locals stack => exact usesLongForm_of_ne _ (by decide) (by decide)

/-- A frame in the long form is written two bytes shorter if the distance allows it. -/
theorem compacts_extended (h : kind.Storable) :
    Compacts (if usesLongForm (kind.extended delta) then 1 else 0) (kind.extended delta)
      (kind.encode delta) := by
  have hkept (hsame : kind.extended delta = kind.encode delta) :
      Compacts (if usesLongForm (kind.extended delta) then 1 else 0) (kind.extended delta)
        (kind.encode delta) := by
    rw [hsame, usesLongForm_encode h]
    exact .refl _
  cases kind with
  | same =>
      by_cases hnear : delta.toNat ≤ maxCompactDelta
      · rw [extended, usesLongForm_same, encode, if_pos hnear, if_pos (decide_eq_true hnear)]
        exact ⟨rfl, by simp⟩
      · exact hkept (by rw [extended, encode, if_neg hnear])
  | sameWithItem item =>
      by_cases hnear : delta.toNat ≤ maxCompactDelta
      · rw [extended, usesLongForm_of_delta, encode, if_pos hnear, if_pos (by simpa using hnear)]
        exact ⟨by simp; omega, by simp⟩
      · exact hkept (by rw [extended, encode, if_neg hnear])
  | _ => exact hkept rfl

/-- What was read of a frame, against what is written for it. -/
theorem compacts_of_reader (h : reader c = .ok ((delta, kind), d)) : ∃ frame, c.Passes frame d ∧
    Compacts (if usesLongForm frame then 1 else 0) frame (kind.encode delta) := by
  obtain ⟨hstorable, hencode | hextended⟩ := reader_eq_ok_iff.1 h
  · refine ⟨_, hencode, ?_⟩
    rw [usesLongForm_encode hstorable]
    exact .refl _
  · exact ⟨_, hextended, compacts_extended hstorable⟩

end FrameKind

/-! ## Stack maps -/

namespace StackMap

variable {previous : Option UInt16} {frames : StackMap} {data : Bytes}

/-- The frames that `data` stores, each as it is stored. -/
def storedFrames (data : Bytes) : Except Fault (List Bytes) :=
  Reader.read (do FrameKind.reader.passed.many (← Reader.u16).toNat) data

theorem Yields.compacts (h : Yields previous c frames d) : ∃ slices,
    FrameKind.reader.passed.Yields c slices d ∧ slices.length = frames.length ∧
      c.Passes slices.flatten d ∧
      Compacts (slices.countP FrameKind.usesLongForm) slices.flatten
        (rows previous frames).flatten := by
  induction frames generalizing previous c with
  | nil => exact ⟨[], h, rfl, passes_nil_iff.2 h, .refl _⟩
  | cons frame rest ih =>
      rcases h with ⟨delta, m, hframe, hoffset, hrest⟩
      obtain ⟨slices, hyields, hlength, hpasses, hcompacts⟩ := ih hrest
      obtain ⟨slice, hslice, hshort⟩ := FrameKind.compacts_of_reader hframe
      obtain ⟨-, rfl⟩ := Frame.delta?_eq_some_iff.1 (Frame.offset?_eq_some_iff.1 hoffset)
      refine ⟨slice :: slices, ⟨m, passed_of_passes hframe hslice, hyields⟩,
        congrArg Nat.succ hlength, hslice.trans hpasses, ?_⟩
      rw [List.countP_cons, Nat.add_comm, List.flatten_cons, rows, List.flatten_cons]
      exact hshort.append hcompacts

theorem storedFrames_of_yields {slices : List Bytes} {m : Cursor}
    (hcount : slices.length ≤ maxTableLength)
    (hfront : (Cursor.ofBytes data).Passes (bytes16 (UInt16.ofNat slices.length)) m)
    (hslices : FrameKind.reader.passed.Yields m slices d) : storedFrames data = .ok slices := by
  have hback : (UInt16.ofNat slices.length).toNat = slices.length :=
    UInt16.toNat_ofNat_of_lt' (Nat.lt_succ_of_le hcount)
  have hmany : FrameKind.reader.passed.many (UInt16.ofNat slices.length).toNat m =
      .ok (slices, d) := Reader.many_eq_ok_iff.2 ⟨hback.symm, hslices⟩
  exact read_eq_ok_iff.2
    ⟨d, Reader.bind_eq_ok_iff.2 ⟨_, m, u16_eq_ok_iff.2 hfront, hmany⟩⟩

/-- A stack map that was read is written with the short forms in place of the long ones. -/
theorem exists_compacts (h : ofBytes data = .ok frames) : ∃ stored slices,
    frames.encode = .ok stored ∧ storedFrames data = .ok slices ∧
      Compacts (slices.countP FrameKind.usesLongForm) data stored := by
  obtain ⟨hcount, m, d, hfront, hyields, hend⟩ := ofBytes_eq_ok_iff.1 h
  obtain ⟨slices, hslices, hlength, hpasses, hcompacts⟩ := hyields.compacts
  refine ⟨_, slices, encode_eq_ok_iff.2 ⟨hcount, hyields.storable.1, rfl⟩, ?_, ?_⟩
  · exact storedFrames_of_yields (hlength ▸ hcount) (hlength ▸ hfront) hslices
  · have hdata : data = bytes16 (UInt16.ofNat frames.length) ++ slices.flatten := by
      have hahead := (hfront.trans hpasses).ahead
      rwa [hend, List.append_nil] at hahead
    rw [hdata]
    exact hcompacts.behind _

end StackMap

end CallProbe
