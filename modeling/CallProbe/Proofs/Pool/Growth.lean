import CallProbe.Pool.Codec
import CallProbe.Pool.Symbol
import CallProbe.Proofs.Bytes.Passage

/-!
# How pools grow

A pool only ever gets longer. `Pool.Sound` is what every pool with a history
satisfies: its look-up leads to the constants it names, and its slots can be
counted in 16 bits. `Edit.Ensures` is the law of a whole edit, in terms of the
pool it leaves behind whether it succeeds or not.
-/

namespace CallProbe.Pool

/-- The look-up is right about the constants it knows, and every slot has a 16-bit index. -/
structure Sound (pool : Pool) : Prop where
  lookup_get : ∀ {constant index}, pool.lookup[constant]? = some index →
    pool.get? index = some constant
  slots_le : pool.slots ≤ maxSlots

/-- Every index that holds a constant in `earlier` still holds it. -/
def Extends (later earlier : Pool) : Prop :=
  ∀ {index constant}, earlier.get? index = some constant → later.get? index = some constant

theorem Extends.refl (pool : Pool) : pool.Extends pool := fun h => h

theorem Extends.trans {p q r : Pool} (h : r.Extends q) (h' : q.Extends p) : r.Extends p :=
  fun hget => h (h' hget)

theorem toNat_lt_slots {pool : Pool} {index : UInt16} {constant : Constant}
    (h : pool.get? index = some constant) : index.toNat < pool.slots := by
  by_contra hge
  simp [get?, Array.getElem?_eq_none (Nat.le_of_not_lt hge)] at h

theorem toNat_count {pool : Pool} (h : pool.slots ≤ maxSlots) : pool.count.toNat = pool.slots :=
  UInt16.toNat_ofNat_of_lt' (Nat.lt_succ_of_le h)

/-! ## Appending -/

theorem slots_append (pool : Pool) (constant : Constant) :
    (pool.append constant).slots = pool.slots + constant.slots := by
  unfold append slots
  cases constant <;> simp [Constant.slots]

theorem lookup_new : Pool.new.lookup = ∅ := rfl

theorem lookup_append (pool : Pool) (constant : Constant) : (pool.append constant).lookup =
    pool.lookup.insertIfNew constant (UInt16.ofNat pool.slots) := rfl

theorem append_extends (pool : Pool) (constant : Constant) :
    (pool.append constant).Extends pool := by
  intro index old h
  have hlt : index.toNat < pool.entries.size := toNat_lt_slots h
  unfold append get? at *
  dsimp only
  split
  · rwa [Array.getElem?_push_lt (by simp; omega), Array.getElem_push_lt hlt,
      ← Array.getElem?_eq_getElem hlt]
  · rwa [Array.getElem?_push_lt hlt, ← Array.getElem?_eq_getElem hlt]

theorem get?_append_self {pool : Pool} (constant : Constant) (h : pool.slots < 65536) :
    (pool.append constant).get? (UInt16.ofNat pool.slots) = some constant := by
  unfold append get? slots at *
  rw [UInt16.toNat_ofNat_of_lt' h]
  dsimp only
  split
  · rw [Array.getElem?_push_lt (by simp), Array.getElem_push_eq]
    rfl
  · rw [Array.getElem?_push_size]
    rfl

theorem Sound.append {pool : Pool} (hs : pool.Sound) {constant : Constant}
    (hroom : pool.slots + constant.slots ≤ maxSlots) : (pool.append constant).Sound := by
  have hlt : pool.slots < 65536 := Nat.lt_succ_of_le hs.slots_le
  refine ⟨?_, by rw [slots_append]; exact hroom⟩
  intro other index h
  rw [lookup_append, Std.HashMap.getElem?_insertIfNew] at h
  split at h
  · rename_i hnew
    cases h
    obtain rfl := eq_of_beq hnew.1
    exact get?_append_self constant hlt
  · exact append_extends pool constant (hs.lookup_get h)

/-! ## Edits -/

/-- A sound pool stays sound and keeps its constants, and a successful result satisfies `post` in
the pool that is left. -/
def Edit.Ensures {α : Type} (edit : Edit α) (post : Pool → α → Prop) : Prop :=
  ∀ pool : Pool, pool.Sound → (edit pool).2.Sound ∧ (edit pool).2.Extends pool ∧
    ∀ a, (edit pool).1 = .ok a → post (edit pool).2 a

/-- A property that no growth of the pool can end. -/
def Lasting {α : Type} (post : Pool → α → Prop) : Prop :=
  ∀ {p q : Pool} {a : α}, q.Extends p → post p a → post q a

namespace Edit

variable {α β : Type}

theorem bind_apply (edit : Edit α) (next : α → Edit β) (pool : Pool) :
    (edit >>= next) pool =
      match edit pool with
      | (.ok a, left) => next a left
      | (.error fault, left) => (.error fault, left) := by
  change ExceptT.bindCont next (edit pool).1 (edit pool).2 = _
  rcases edit pool with ⟨_ | a, left⟩ <;> rfl

theorem bind_eq_ok_iff {edit : Edit α} {next : α → Edit β} {pool left : Pool} {b : β} :
    (edit >>= next) pool = (.ok b, left) ↔
      ∃ a middle, edit pool = (.ok a, middle) ∧ next a middle = (.ok b, left) := by
  rw [bind_apply]
  rcases hr : edit pool with ⟨_ | a, middle⟩
  · constructor
    · intro h
      cases h
    · intro h
      rcases h with ⟨_, _, hok, _⟩
      cases hok
  · constructor
    · intro h
      exact ⟨a, middle, rfl, h⟩
    · intro h
      rcases h with ⟨_, _, hok, h⟩
      cases hok
      exact h

theorem pure_eq_ok_iff {pool left : Pool} {a b : α} :
    (pure a : Edit α) pool = (.ok b, left) ↔ b = a ∧ left = pool := by
  change (Except.ok a, pool) = (Except.ok b, left) ↔ _
  rw [Prod.mk.injEq, Except.ok.injEq]
  exact and_congr eq_comm eq_comm

theorem lift_eq_ok_iff {pool left : Pool} {result : Except Fault α} {a : α} :
    (liftM result : Edit α) pool = (.ok a, left) ↔ result = .ok a ∧ left = pool := by
  change (result, pool) = (Except.ok a, left) ↔ _
  rw [Prod.mk.injEq]
  exact and_congr Iff.rfl eq_comm

theorem throw_ne_ok {pool left : Pool} {fault : Fault} {a : α} :
    (throw fault : Edit α) pool ≠ (.ok a, left) := by
  intro h
  cases h

theorem Ensures.pure {post : Pool → α → Prop} {a : α} (h : ∀ pool, post pool a) :
    Edit.Ensures (Pure.pure a) post := by
  intro pool hs
  refine ⟨hs, Extends.refl pool, fun b hb => ?_⟩
  cases hb
  exact h pool

theorem Ensures.weaken {edit : Edit α} {post post' : Pool → α → Prop} (h : edit.Ensures post)
    (hpost : ∀ pool a, post pool a → post' pool a) : edit.Ensures post' := by
  intro pool hs
  obtain ⟨hsound, hext, hok⟩ := h pool hs
  exact ⟨hsound, hext, fun a ha => hpost _ a (hok a ha)⟩

/-- What lasts after the first edit can be used for the second. -/
theorem Ensures.bind {edit : Edit α} {next : α → Edit β} {mid : Pool → α → Prop}
    {post : Pool → β → Prop} (h : edit.Ensures mid) (lasting : Lasting mid)
    (hnext : ∀ a, (next a).Ensures fun pool b => mid pool a → post pool b) :
    (edit >>= next).Ensures post := by
  intro pool hs
  obtain ⟨hsound, hext, hok⟩ := h pool hs
  rw [bind_apply]
  cases hr : edit pool with
  | mk result left =>
      rw [hr] at hsound hext hok
      cases result with
      | error fault => exact ⟨hsound, hext, fun b hb => by cases hb⟩
      | ok a =>
          obtain ⟨hsound', hext', hok'⟩ := hnext a left hsound
          exact ⟨hsound', hext'.trans hext, fun b hb => hok' b hb (lasting hext' (hok a rfl))⟩

/-- Whatever becomes of the edit, the pool it leaves has the property if the pool it was given has
it. -/
def Keeps (edit : Edit α) (P : Pool → Prop) : Prop := ∀ pool : Pool, P pool → P (edit pool).2

theorem Keeps.bind {edit : Edit α} {next : α → Edit β} {P : Pool → Prop} (h : edit.Keeps P)
    (hnext : ∀ a, (next a).Keeps P) : (edit >>= next).Keeps P := by
  intro pool hP
  have hleft := h pool hP
  rw [bind_apply]
  rcases hr : edit pool with ⟨_ | a, left⟩
  · rwa [hr] at hleft
  · rw [hr] at hleft
    exact hnext a left hleft

/-- The pool an edit leaves, without its result. -/
theorem Ensures.pool {edit : Edit α} {post : Pool → α → Prop} (h : edit.Ensures post)
    {pool : Pool} (hs : pool.Sound) : (edit pool).2.Sound ∧ (edit pool).2.Extends pool :=
  ⟨(h pool hs).1, (h pool hs).2.1⟩

end Edit

theorem add_of_present {pool : Pool} {constant : Constant} {index : UInt16}
    (h : pool.lookup[constant]? = some index) : add constant pool = (.ok index, pool) := by
  unfold add
  rw [h]

theorem add_of_fresh {pool : Pool} {constant : Constant}
    (hfresh : pool.lookup[constant]? = none) (htext : constant.textLength ≤ maxTextLength)
    (hroom : pool.slots + constant.slots ≤ maxSlots) :
    add constant pool = (.ok (UInt16.ofNat pool.slots), pool.append constant) := by
  unfold slots at *
  unfold add
  rw [hfresh]
  simp only [if_neg (Nat.not_lt.2 htext), if_neg (Nat.not_lt.2 hroom)]

/-- What `add` does where the constant is not present yet. -/
theorem add_of_absent {pool : Pool} {constant : Constant} (h : pool.lookup[constant]? = none) :
    add constant pool =
      if maxTextLength < constant.textLength then
        (.error (.malformed (.utf8TooLong constant.textLength)), pool)
      else if maxSlots < pool.slots + constant.slots then (.error .constantPoolOverflow, pool)
      else (.ok (UInt16.ofNat pool.slots), pool.append constant) := by
  unfold add
  rw [h]
  rfl

/-- The pool that `add` leaves is the old one, or the old one with a constant that fits. -/
theorem add_keeps {P : Pool → Prop} {constant : Constant}
    (h : ∀ pool, P pool → constant.textLength ≤ maxTextLength →
      pool.slots + constant.slots ≤ maxSlots → P (pool.append constant)) :
    (add constant).Keeps P := by
  intro pool hP
  cases hlookup : pool.lookup[constant]? with
  | some index =>
      rw [add_of_present hlookup]
      exact hP
  | none =>
      rw [add_of_absent hlookup]
      split
      · exact hP
      split
      · exact hP
      · exact h pool hP (Nat.le_of_not_lt ‹_›) (Nat.le_of_not_lt ‹_›)

/-- The index that `add` answers holds the constant. -/
theorem add_ensures (constant : Constant) :
    (add constant).Ensures fun pool index => pool.get? index = some constant := by
  intro pool hs
  unfold add
  cases hl : pool.lookup[constant]? with
  | some index =>
      refine ⟨hs, Extends.refl pool, fun a ha => ?_⟩
      cases ha
      exact hs.lookup_get hl
  | none =>
      dsimp only
      split
      · exact ⟨hs, Extends.refl pool, fun a ha => by cases ha⟩
      split
      · exact ⟨hs, Extends.refl pool, fun a ha => by cases ha⟩
      · rename_i hroom
        refine ⟨hs.append (Nat.le_of_not_lt hroom), append_extends pool constant, fun a ha => ?_⟩
        cases ha
        exact get?_append_self constant (Nat.lt_succ_of_le hs.slots_le)

/-! ## Histories -/

/-- The ways to add to a pool. -/
inductive Addition where
  | constant (constant : Constant)
  | text (text : String)
  | className (name : String)
  | string (text : String)
  | nameAndType (name descriptor : String)
  | methodRef (method : MemberRef)

/-- The edit that makes an addition. -/
def Addition.edit : Addition → Edit UInt16
  | constant c => add c
  | text t => addText t
  | className name => addClass name
  | string t => addString t
  | nameAndType name descriptor => addNameAndType name descriptor
  | methodRef method => addMethodRef method

/-- Whether a text is added by its bytes. -/
def Addition.isRaw : Addition → Bool
  | constant (.rawUtf8 _) => true
  | _ => false

/-- Symbols are put in constant by constant, and texts are not put in by their bytes: what is true
of those edits, and of one edit behind another, is true of every addition. -/
theorem Addition.edit_induction {P : Edit UInt16 → Prop} (addition : Addition)
    (hadd : ∀ c, ((constant c).isRaw → addition.isRaw) → P (add c))
    (hbind : ∀ {edit : Edit UInt16} {next : UInt16 → Edit UInt16}, P edit →
      (∀ index, P (next index)) → P (edit >>= next)) : P addition.edit := by
  have hplain (c : Constant) (hc : (constant c).isRaw = false) : P (add c) :=
    hadd c fun hraw => by simp [hc] at hraw
  have htext (text : String) : P (addText text) := hplain (.utf8 text) rfl
  have hclass (name : String) : P (addClass name) :=
    hbind (htext name) fun index => hplain (.classRef index) rfl
  have hsignature (name descriptor : String) : P (addNameAndType name descriptor) :=
    hbind (htext name) fun first => hbind (htext descriptor) fun second =>
      hplain (.nameAndType first second) rfl
  cases addition with
  | constant c => exact hadd c id
  | text text => exact htext text
  | className name => exact hclass name
  | string text => exact hbind (htext text) fun index => hplain (.string index) rfl
  | nameAndType name descriptor => exact hsignature name descriptor
  | methodRef method =>
      exact hbind (hclass method.owner) fun owner =>
        hbind (hsignature method.name method.descriptor) fun signature =>
          hplain (.member _ owner signature) (by cases method.isInterface <;> rfl)

/-- What adding constants keeps, adding symbols keeps. -/
theorem Addition.edit_keeps {P : Pool → Prop} (addition : Addition)
    (h : ∀ c, ((constant c).isRaw → addition.isRaw) → (add c).Keeps P) : addition.edit.Keeps P :=
  addition.edit_induction h Edit.Keeps.bind

/-- The pools that come about: a fresh or a stored one, and then any additions, those that fail
included. -/
inductive Built : Pool → Prop
  | new : Built new
  | ofBytes {data : Bytes} {pool : Pool} (h : ofBytes data = .ok pool) : Built pool
  | add {pool : Pool} (h : Built pool) (addition : Addition) : Built (addition.edit pool).2

end CallProbe.Pool
