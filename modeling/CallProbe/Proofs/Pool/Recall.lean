import CallProbe.Proofs.Pool.Representation
import CallProbe.Proofs.Pool.Symbols

/-!
# Symbols are added once

An addition that succeeded has put every part of its symbol into the look-up, and the look-up
forgets nothing. So the same addition answers the same index in every later pool, and has
nothing left to do there: it needs no room, and a full pool answers it as well.
-/

namespace CallProbe.Pool

variable {pool left later : Pool} {α β : Type}

/-! ## What the look-up knows -/

/-- Every constant that `earlier` looks up has the same index in `later`. -/
def Recalls (later earlier : Pool) : Prop :=
  ∀ (constant : Constant) (index : UInt16), earlier.lookup[constant]? = some index →
    later.lookup[constant]? = some index

theorem Recalls.refl (pool : Pool) : pool.Recalls pool := fun _ _ h => h

theorem Recalls.trans {p q r : Pool} (h : r.Recalls q) (h' : q.Recalls p) : r.Recalls p :=
  fun _ _ hlookup => h _ _ (h' _ _ hlookup)

theorem append_recalls (pool : Pool) (constant : Constant) :
    (pool.append constant).Recalls pool := by
  intro old index h
  have hknown : old ∈ pool.lookup := Std.HashMap.mem_iff_isSome_getElem?.2 (by simp [h])
  rw [lookup_append, Std.HashMap.getElem?_insertIfNew]
  split
  · rename_i hnew
    obtain rfl := eq_of_beq hnew.1
    exact absurd hknown hnew.2
  · exact h

/-! ## Repeated edits -/

/-- An edit that forgets nothing, and that does nothing more where its result is known. -/
structure Edit.Settles (edit : Edit α) : Prop where
  recalls : ∀ pool, (edit pool).2.Recalls pool
  again : ∀ {pool left later a}, edit pool = (.ok a, left) → later.Recalls left →
    edit later = (.ok a, later)

theorem Edit.Settles.bind {edit : Edit α} {next : α → Edit β} (h : edit.Settles)
    (hnext : ∀ a, (next a).Settles) : (edit >>= next).Settles where
  recalls pool := by
    have hfirst := h.recalls pool
    rw [bind_apply]
    rcases hedit : edit pool with ⟨_ | a, middle⟩
    · rwa [hedit] at hfirst
    · rw [hedit] at hfirst
      exact ((hnext a).recalls middle).trans hfirst
  again := by
    intro pool left later b hok hlater
    obtain ⟨a, middle, hedit, hrest⟩ := bind_eq_ok_iff.1 hok
    -- What the first edit answered by is still known when the second one is through.
    have hmiddle : left.Recalls middle := by
      have hkept := (hnext a).recalls middle
      rwa [hrest] at hkept
    exact bind_eq_ok_iff.2
      ⟨a, later, h.again hedit (hlater.trans hmiddle), (hnext a).again hrest hlater⟩

theorem add_settles (constant : Constant) : (add constant).Settles where
  recalls pool := by
    cases hlookup : pool.lookup[constant]? with
    | some index =>
        rw [add_of_present hlookup]
        exact Recalls.refl pool
    | none =>
        rw [add_of_absent hlookup]
        split
        · exact Recalls.refl pool
        split
        · exact Recalls.refl pool
        · exact append_recalls pool constant
  again := by
    intro pool left later index hok hlater
    apply add_of_present
    apply hlater
    cases hlookup : pool.lookup[constant]? with
    | some first =>
        rw [add_of_present hlookup] at hok
        cases hok
        exact hlookup
    | none =>
        rw [add_of_absent hlookup] at hok
        split at hok
        · cases hok
        split at hok
        · cases hok
        · cases hok
          rw [lookup_append, Std.HashMap.getElem?_insertIfNew]
          simp [Std.HashMap.mem_iff_isSome_getElem?, hlookup]

theorem Addition.edit_settles (addition : Addition) : addition.edit.Settles :=
  addition.edit_induction (fun c _ => add_settles c) Edit.Settles.bind

/-! ## Later pools -/

/-- The pool after further additions, those that fail included. -/
def grown (pool : Pool) (history : List Addition) : Pool :=
  history.foldl (fun pool addition => (addition.edit pool).2) pool

theorem grown_recalls (pool : Pool) (history : List Addition) :
    (pool.grown history).Recalls pool := by
  induction history generalizing pool with
  | nil => exact Recalls.refl pool
  | cons addition rest ih =>
      exact Recalls.trans (ih _) (addition.edit_settles.recalls pool)

theorem Sound.grown_extends (hs : pool.Sound) (history : List Addition) :
    (pool.grown history).Extends pool := by
  induction history generalizing pool with
  | nil => exact Extends.refl pool
  | cons addition rest ih =>
      obtain ⟨hsound, hext⟩ := addition.edit_sound hs
      exact Extends.trans (ih hsound) hext

/-- A method and a string that were added resolve to what was asked for, then and after any further
additions, and asking for them again answers the same index and leaves the pool as it is. -/
theorem symbols_recalled (hbuilt : pool.Built) (history : List Addition) :
    (∀ method index left, addMethodRef method pool = (.ok index, left) →
      (left.grown history).memberRef index = .ok method ∧
        addMethodRef method (left.grown history) = (.ok index, left.grown history)) ∧
    ∀ text index left, addString text pool = (.ok index, left) →
      (∃ content, (left.grown history).get index = .ok (.string content) ∧
        (left.grown history).text content = .ok text) ∧
        addString text (left.grown history) = (.ok index, left.grown history) := by
  constructor
  · intro method index left hadded
    obtain ⟨hsound, -, hholds⟩ := addMethodRef_ensures method pool hbuilt.sound
    rw [hadded] at hsound hholds
    have hext : (left.grown history).Extends left := hsound.grown_extends history
    exact ⟨(holdsMethod_iff.1 (hext.holdsMethod (hholds index rfl))).1,
      (Addition.methodRef method).edit_settles.again hadded (grown_recalls left history)⟩
  · intro text index left hadded
    obtain ⟨hsound, -, hholds⟩ := addString_ensures text pool hbuilt.sound
    rw [hadded] at hsound hholds
    have hext : (left.grown history).Extends left := hsound.grown_extends history
    obtain ⟨content, hget, htext⟩ := hext.holdsString (hholds index rfl)
    exact ⟨⟨content, get_eq_ok_iff.2 hget, htext⟩,
      (Addition.string text).edit_settles.again hadded (grown_recalls left history)⟩

/-- A method of a class that is named by a doubled text. -/
def doubledMethod : MemberRef where
  owner := "a"
  name := "b"
  descriptor := "()V"
  isInterface := false

def poolOfDoubledMethod : Pool :=
  ((((doubledPool.append (.classRef 3)).append (.utf8 "b")).append (.utf8 "()V")).append
    (.nameAndType 6 7)).append (.member .method 5 8)

theorem addText_doubledPool : addText "a" doubledPool = (.ok 3, doubledPool) := by
  have hlast : (new.append (.long 7)).slots = 3 := rfl
  apply add_of_present
  simp [doubledPool, lookup_append, lookup_new, Std.HashMap.getElem_insertIfNew, hlast]

theorem addMethodRef_doubledMethod :
    addMethodRef doubledMethod doubledPool = (.ok 9, poolOfDoubledMethod) := by
  have hclass : addClass "a" doubledPool = (.ok 5, doubledPool.append (.classRef 3)) :=
    Edit.bind_eq_ok_iff.2 ⟨3, _, addText_doubledPool,
      add_of_fresh (by simp [lookup_append, lookup_new, doubledPool]) (by decide) (by decide)⟩
  have hsignature : addNameAndType "b" "()V" (doubledPool.append (.classRef 3)) = (.ok 8, _) :=
    Edit.bind_eq_ok_iff.2 ⟨6, _,
      add_of_fresh (by simp [lookup_append, lookup_new, doubledPool]) (by decide) (by decide),
      Edit.bind_eq_ok_iff.2 ⟨7, _,
        add_of_fresh (by simp [lookup_append, lookup_new, doubledPool]) (by decide) (by decide),
        add_of_fresh (by simp [lookup_append, lookup_new, doubledPool]) (by decide)
          (by decide)⟩⟩
  exact Edit.bind_eq_ok_iff.2 ⟨5, _, hclass, Edit.bind_eq_ok_iff.2 ⟨8, _, hsignature,
    add_of_fresh (by simp [lookup_append, lookup_new, doubledPool, doubledMethod]) (by decide)
      (by decide)⟩⟩

theorem addString_doubledPool :
    addString "a" doubledPool = (.ok 5, doubledPool.append (.string 3)) :=
  Edit.bind_eq_ok_iff.2 ⟨3, _, addText_doubledPool,
    add_of_fresh (by simp [lookup_append, lookup_new, doubledPool]) (by decide) (by decide)⟩

/-- Of the two equal texts of a stored pool, the first one is used for the owner of a method and for
a string, and again when more has been added. -/
theorem doubledPool_recalls :
    doubledPool.Built ∧
      (addMethodRef doubledMethod doubledPool = (.ok 9, poolOfDoubledMethod) ∧
        (poolOfDoubledMethod.grown [.string "b", .className "c"]).memberRef 9 =
          .ok doubledMethod ∧
        addMethodRef doubledMethod (poolOfDoubledMethod.grown [.string "b", .className "c"]) =
          (.ok 9, poolOfDoubledMethod.grown [.string "b", .className "c"])) ∧
      addString "a" doubledPool = (.ok 5, doubledPool.append (.string 3)) ∧
      (∃ content,
        ((doubledPool.append (.string 3)).grown [.className "b", .string "a"]).get 5 =
          .ok (.string content) ∧
        ((doubledPool.append (.string 3)).grown [.className "b", .string "a"]).text content =
          .ok "a") ∧
      addString "a" ((doubledPool.append (.string 3)).grown [.className "b", .string "a"]) =
        (.ok 5, (doubledPool.append (.string 3)).grown [.className "b", .string "a"]) := by
  have hbuilt : doubledPool.Built := @Built.ofBytes doubledData _ rfl
  obtain ⟨hmethods, -⟩ := symbols_recalled hbuilt [.string "b", .className "c"]
  obtain ⟨hmethod, hmethodAgain⟩ := hmethods doubledMethod 9 _ addMethodRef_doubledMethod
  obtain ⟨-, hstrings⟩ := symbols_recalled hbuilt [.className "b", .string "a"]
  obtain ⟨hstring, hstringAgain⟩ := hstrings "a" 5 _ addString_doubledPool
  exact ⟨hbuilt, ⟨addMethodRef_doubledMethod, hmethod, hmethodAgain⟩, addString_doubledPool,
    hstring, hstringAgain⟩

end CallProbe.Pool
