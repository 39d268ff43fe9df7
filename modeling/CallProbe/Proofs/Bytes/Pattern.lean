import CallProbe.Proofs.Bytes.Passage
import Mathlib.Data.List.Forall2

/-!
# Byte patterns

A stored form that leaves some of its bytes open: padding and reserved bytes are
skipped when they are read and written as zeros. A pattern lists the bytes that are
fixed, with a gap for each byte that may hold anything.
-/

namespace CallProbe

/-- Fixed bytes, and gaps where any byte may stand. -/
abbrev BytePattern := List (Option UInt8)

namespace BytePattern

def fixed (bytes : Bytes) : BytePattern := bytes.map some

def free (count : Nat) : BytePattern := List.replicate count none

/-- The bytes have the length of the pattern and agree with it wherever it fixes a byte. -/
def Fits (pattern : BytePattern) (bytes : Bytes) : Prop :=
  List.Forall₂ (fun place byte => ∀ value, place = some value → byte = value) pattern bytes

/-- The pattern with zeros in its gaps. -/
def zeroed (pattern : BytePattern) : Bytes := pattern.map (·.getD 0)

@[simp] theorem length_fixed (bytes : Bytes) : (fixed bytes).length = bytes.length := by
  simp [fixed]

@[simp] theorem length_free (count : Nat) : (free count).length = count := by
  simp [free]

@[simp] theorem zeroed_nil : zeroed [] = [] := rfl

@[simp] theorem zeroed_append (front back : BytePattern) :
    zeroed (front ++ back) = zeroed front ++ zeroed back := List.map_append

@[simp] theorem zeroed_fixed (bytes : Bytes) : zeroed (fixed bytes) = bytes := by
  simp [zeroed, fixed, Function.comp_def]

@[simp] theorem zeroed_free (count : Nat) : zeroed (free count) = List.replicate count 0 := by
  simp [zeroed, free]

@[simp] theorem length_zeroed (pattern : BytePattern) : pattern.zeroed.length = pattern.length := by
  simp [zeroed]

theorem Fits.length {pattern : BytePattern} {bytes : Bytes} (h : pattern.Fits bytes) :
    bytes.length = pattern.length := (List.Forall₂.length_eq h).symm

theorem zeroed_fits (pattern : BytePattern) : pattern.Fits pattern.zeroed := by
  induction pattern with
  | nil => exact .nil
  | cons place rest ih =>
      refine .cons ?_ ih
      intro value h
      simp [h]

theorem fits_append_iff {front back : BytePattern} {bytes : Bytes} :
    (front ++ back).Fits bytes ↔
      ∃ first second, front.Fits first ∧ back.Fits second ∧ bytes = first ++ second := by
  unfold Fits
  constructor
  · intro h
    have hsplit := List.forall₂_take_append bytes front back h.flip
    have hsplit' := List.forall₂_drop_append bytes front back h.flip
    exact ⟨_, _, hsplit.flip, hsplit'.flip, (List.take_append_drop front.length bytes).symm⟩
  · intro h
    rcases h with ⟨first, second, hfirst, hsecond, rfl⟩
    exact List.rel_append hfirst hsecond

theorem fits_fixed_iff {expected bytes : Bytes} :
    (fixed expected).Fits bytes ↔ bytes = expected := by
  unfold Fits fixed
  rw [List.forall₂_map_left_iff]
  induction expected generalizing bytes with
  | nil => simp [List.forall₂_nil_left_iff]
  | cons value rest ih =>
      rw [List.forall₂_cons_left_iff]
      constructor
      · intro h
        rcases h with ⟨byte, others, hbyte, hothers, rfl⟩
        rw [hbyte value rfl, ih.1 hothers]
      · intro h
        exact ⟨value, rest, fun _ hv => Option.some.inj hv, ih.2 rfl, h⟩

theorem fits_free_iff {count : Nat} {bytes : Bytes} :
    (free count).Fits bytes ↔ bytes.length = count := by
  constructor
  · intro h
    rw [h.length, length_free]
  · intro h
    unfold Fits free
    rw [List.forall₂_iff_zip]
    refine ⟨by simp [h], fun hmem value hv => ?_⟩
    rw [List.eq_of_mem_replicate (List.of_mem_zip hmem).1] at hv
    cases hv

/-- The zeroed pattern and any bytes that fit it differ in the gaps only. -/
theorem Fits.getElem?_zeroed {pattern : BytePattern} {bytes : Bytes} (h : pattern.Fits bytes)
    (i : Nat) : pattern.zeroed[i]? =
      if pattern[i]? = some none then some 0 else bytes[i]? := by
  induction h generalizing i with
  | nil => simp [zeroed]
  | @cons place byte pattern bytes hbyte _ ih =>
      cases i with
      | zero =>
          cases place with
          | none => simp [zeroed]
          | some value => simp [zeroed, hbyte value rfl]
      | succ i => simpa [zeroed] using ih i

theorem getElem?_fixed_ne (bytes : Bytes) (i : Nat) : (fixed bytes)[i]? ≠ some none := by
  simp [fixed]

/-- The gaps of a pattern with a single run of them. -/
theorem getElem?_gap_iff {front back : Bytes} {count i : Nat} :
    (fixed front ++ free count ++ fixed back)[i]? = some none ↔
      front.length ≤ i ∧ i < front.length + count := by
  by_cases hfront : i < front.length
  · rw [List.append_assoc, List.getElem?_append_left (by simpa using hfront)]
    simp only [getElem?_fixed_ne, false_iff]
    omega
  by_cases hgap : i < front.length + count
  · have hi : i - front.length < count := by omega
    rw [List.getElem?_append_left (by simpa using hgap),
      List.getElem?_append_right (by simpa using hfront)]
    simp only [free, length_fixed, List.getElem?_replicate, hi, if_true, true_iff]
    omega
  · rw [List.getElem?_append_right (by simpa using hgap)]
    simp only [getElem?_fixed_ne, false_iff]
    omega

end BytePattern

/-! ## Moving over a pattern -/

namespace Cursor

/-- `next` is `c` moved over bytes that fit the pattern. -/
def Matches (c : Cursor) (pattern : BytePattern) (next : Cursor) : Prop :=
  ∃ bytes, pattern.Fits bytes ∧ c.Passes bytes next

theorem matches_append_iff {c e : Cursor} {front back : BytePattern} :
    c.Matches (front ++ back) e ↔ ∃ d, c.Matches front d ∧ d.Matches back e := by
  constructor
  · intro h
    rcases h with ⟨bytes, hfits, hpass⟩
    obtain ⟨first, second, hfirst, hsecond, rfl⟩ := BytePattern.fits_append_iff.1 hfits
    obtain ⟨d, hd, he⟩ := passes_append_iff.1 hpass
    exact ⟨d, ⟨first, hfirst, hd⟩, second, hsecond, he⟩
  · intro h
    rcases h with ⟨d, ⟨first, hfirst, hd⟩, second, hsecond, he⟩
    exact ⟨first ++ second, BytePattern.fits_append_iff.2 ⟨first, second, hfirst, hsecond, rfl⟩,
      hd.trans he⟩

@[simp] theorem matches_fixed_iff {c d : Cursor} {bytes : Bytes} :
    c.Matches (.fixed bytes) d ↔ c.Passes bytes d := by
  simp [Matches, BytePattern.fits_fixed_iff]

@[simp] theorem matches_nil_iff {c d : Cursor} : c.Matches [] d ↔ d = c := by
  simp [Matches, BytePattern.Fits]

theorem matches_free_iff {c d : Cursor} {count : Nat} :
    c.Matches (.free count) d ↔ ∃ bytes, bytes.length = count ∧ c.Passes bytes d := by
  simp only [Matches, BytePattern.fits_free_iff]

theorem Matches.pos {c d : Cursor} {pattern : BytePattern} (h : c.Matches pattern d) :
    d.pos = c.pos + pattern.length := by
  rcases h with ⟨bytes, hfits, hpass⟩
  rw [hpass.pos, hfits.length]

end Cursor

end CallProbe
