import CallProbe.Proofs.Outcome
import CallProbe.Proofs.Pool.Growth

/-!
# Symbols of growing pools

What an index resolves to, read off the constants of the pool, and that adding a
symbol yields an index that resolves to it. Resolutions outlast every growth.
-/

namespace CallProbe.Pool

open Outcome

variable {pool later : Pool} {index : UInt16}

/-! ## Resolving -/

theorem get_eq_ok_iff {constant : Constant} :
    pool.get index = .ok constant ↔ pool.get? index = some constant := by
  unfold get
  cases pool.get? index <;> simp

theorem text_eq_ok_iff {text : String} :
    pool.text index = .ok text ↔ pool.get? index = some (.utf8 text) := by
  unfold Pool.text get
  cases hget : pool.get? index with
  | none => simp [bind, Except.bind]
  | some constant =>
      cases constant <;> simp [bind, Except.bind, pure, Except.pure, throw, throwThe,
        MonadExceptOf.throw]

theorem className_eq_ok_iff {name : String} :
    pool.className index = .ok name ↔
      ∃ text, pool.get? index = some (.classRef text) ∧ pool.text text = .ok name := by
  unfold className get
  cases hget : pool.get? index with
  | none => simp [bind, Except.bind]
  | some constant =>
      cases constant <;> simp [bind, Except.bind, throw, throwThe, MonadExceptOf.throw]

theorem nameAndType_eq_ok_iff {name descriptor : String} :
    pool.nameAndType index = .ok (name, descriptor) ↔
      ∃ first second, pool.get? index = some (.nameAndType first second) ∧
        pool.text first = .ok name ∧ pool.text second = .ok descriptor := by
  unfold nameAndType
  simp only [bind_eq_ok_iff, get_eq_ok_iff]
  constructor
  · intro h
    rcases h with ⟨constant, hget, h⟩
    cases constant <;> simp only [throw, throwThe, MonadExceptOf.throw, reduceCtorEq] at h
    rename_i first second
    simp only [bind_eq_ok_iff, pure_eq_ok_iff, Prod.mk.injEq] at h
    rcases h with ⟨_, hname, _, hdescriptor, rfl, rfl⟩
    exact ⟨first, second, hget, hname, hdescriptor⟩
  · intro h
    rcases h with ⟨first, second, hget, hname, hdescriptor⟩
    refine ⟨_, hget, ?_⟩
    simp [hname, hdescriptor, bind, Except.bind, pure, Except.pure]

/-- The pool holds a reference to `method` at an index, of the kind that fits its owner. -/
def HoldsMethod (pool : Pool) (index : UInt16) (method : MemberRef) : Prop :=
  ∃ owner signature,
    pool.get? index =
      some (.member (if method.isInterface then .interfaceMethod else .method) owner signature) ∧
    pool.className owner = .ok method.owner ∧
    pool.nameAndType signature = .ok (method.name, method.descriptor)

theorem memberRef_eq_ok_iff {member : MemberRef} :
    pool.memberRef index = .ok member ↔
      ∃ kind owner signature, pool.get? index = some (.member kind owner signature) ∧
        pool.className owner = .ok member.owner ∧
        pool.nameAndType signature = .ok (member.name, member.descriptor) ∧
        member.isInterface = decide (kind = .interfaceMethod) := by
  unfold memberRef
  simp only [bind_eq_ok_iff, get_eq_ok_iff]
  constructor
  · intro h
    rcases h with ⟨constant, hget, h⟩
    cases constant <;> simp only [throw, throwThe, MonadExceptOf.throw, reduceCtorEq] at h
    rename_i kind owner signature
    simp only [bind_eq_ok_iff, pure_eq_ok_iff] at h
    rcases h with ⟨⟨name, descriptor⟩, hsignature, ownerName, howner, rfl⟩
    exact ⟨kind, owner, signature, hget, howner, hsignature, rfl⟩
  · intro h
    rcases h with ⟨kind, owner, signature, hget, howner, hsignature, hkind⟩
    refine ⟨_, hget, ?_⟩
    simp only [hsignature, howner, bind, Except.bind, pure, Except.pure]
    rw [← hkind]

theorem holdsMethod_iff {method : MemberRef} :
    pool.HoldsMethod index method ↔ pool.memberRef index = .ok method ∧
      ∀ owner signature, pool.get? index ≠ some (.member .field owner signature) := by
  rw [memberRef_eq_ok_iff]
  constructor
  · intro h
    rcases h with ⟨owner, signature, hget, howner, hsignature⟩
    refine ⟨⟨_, owner, signature, hget, howner, hsignature, ?_⟩, ?_⟩
    · cases method.isInterface <;> rfl
    · intro owner' signature' hfield
      rw [hget, Option.some.injEq, Constant.member.injEq] at hfield
      cases hi : method.isInterface <;> simp [hi] at hfield
  · intro h
    rcases h with ⟨⟨kind, owner, signature, hget, howner, hsignature, hkind⟩, hfield⟩
    refine ⟨owner, signature, ?_, howner, hsignature⟩
    cases kind with
    | field => exact absurd hget (hfield owner signature)
    | method => simpa [hkind] using hget
    | interfaceMethod => simpa [hkind] using hget

/-! ## Lasting resolutions -/

theorem Extends.text (h : later.Extends pool) {text : String} (ht : pool.text index = .ok text) :
    later.text index = .ok text :=
  text_eq_ok_iff.2 (h (text_eq_ok_iff.1 ht))

theorem Extends.className (h : later.Extends pool) {name : String}
    (hn : pool.className index = .ok name) : later.className index = .ok name := by
  obtain ⟨text, hget, ht⟩ := className_eq_ok_iff.1 hn
  exact className_eq_ok_iff.2 ⟨text, h hget, h.text ht⟩

theorem Extends.nameAndType (h : later.Extends pool) {name descriptor : String}
    (hn : pool.nameAndType index = .ok (name, descriptor)) :
    later.nameAndType index = .ok (name, descriptor) := by
  obtain ⟨first, second, hget, hname, hdescriptor⟩ := nameAndType_eq_ok_iff.1 hn
  exact nameAndType_eq_ok_iff.2 ⟨first, second, h hget, h.text hname, h.text hdescriptor⟩

theorem Extends.holdsMethod (h : later.Extends pool) {method : MemberRef}
    (hm : pool.HoldsMethod index method) : later.HoldsMethod index method := by
  rcases hm with ⟨owner, signature, hget, howner, hsignature⟩
  exact ⟨owner, signature, h hget, h.className howner, h.nameAndType hsignature⟩

/-- The pool holds a string constant with this text at an index. -/
def HoldsString (pool : Pool) (index : UInt16) (text : String) : Prop :=
  ∃ content, pool.get? index = some (.string content) ∧ pool.text content = .ok text

theorem Extends.holdsString (h : later.Extends pool) {text : String}
    (hs : pool.HoldsString index text) : later.HoldsString index text := by
  rcases hs with ⟨content, hget, ht⟩
  exact ⟨content, h hget, h.text ht⟩

/-! ## Adding -/

theorem addText_ensures (text : String) :
    (addText text).Ensures fun pool index => pool.text index = .ok text :=
  (add_ensures _).weaken fun _ _ h => text_eq_ok_iff.2 h

theorem addClass_ensures (name : String) :
    (addClass name).Ensures fun pool index => pool.className index = .ok name := by
  apply (addText_ensures name).bind (fun hext h => hext.text h)
  intro content
  exact (add_ensures _).weaken fun _ _ hget ht => className_eq_ok_iff.2 ⟨content, hget, ht⟩

theorem addString_ensures (text : String) :
    (addString text).Ensures fun pool index => pool.HoldsString index text := by
  apply (addText_ensures text).bind (fun hext h => hext.text h)
  intro content
  exact (add_ensures _).weaken fun _ _ hget ht => ⟨content, hget, ht⟩

theorem addNameAndType_ensures (name descriptor : String) :
    (addNameAndType name descriptor).Ensures fun pool index =>
      pool.nameAndType index = .ok (name, descriptor) := by
  apply (addText_ensures name).bind (fun hext h => hext.text h)
  intro first
  apply (addText_ensures descriptor).bind (fun hext h => hext.text h)
  intro second
  exact (add_ensures _).weaken fun _ _ hget hd hn =>
    nameAndType_eq_ok_iff.2 ⟨first, second, hget, hn, hd⟩

theorem addMethodRef_ensures (method : MemberRef) :
    (addMethodRef method).Ensures fun pool index => pool.HoldsMethod index method := by
  apply (addClass_ensures method.owner).bind (fun hext h => hext.className h)
  intro owner
  apply (addNameAndType_ensures method.name method.descriptor).bind
    (fun hext h => hext.nameAndType h)
  intro signature
  exact (add_ensures _).weaken fun _ _ hget hsignature howner =>
    ⟨owner, signature, hget, howner, hsignature⟩

/-! ## Every history is sound -/

theorem new_sound : new.Sound := by
  refine ⟨?_, by decide⟩
  intro constant index h
  simp [new] at h

private theorem fill_sound {count left : Nat} {pool result : Pool} {c d : Cursor}
    (h : fill count left pool c = .ok (result, d)) (hs : pool.Sound)
    (hleft : pool.slots + left ≤ maxSlots) : result.Sound := by
  induction left using Nat.strongRecOn generalizing pool c with
  | ind left ih =>
      cases left with
      | zero =>
          simp only [fill, Reader.pure_eq_ok_iff] at h
          rw [h.1]
          exact hs
      | succ left =>
          simp only [fill, Reader.bind_eq_ok_iff] at h
          rcases h with ⟨constant, m, -, h⟩
          split at h
          · rename_i hwide
            cases left with
            | zero => simp at h
            | succ left =>
                apply ih left (by omega) h (hs.append (by omega))
                rw [slots_append]
                omega
          · have hone : constant.slots = 1 := by
              cases constant <;> simp_all [Constant.slots]
            apply ih left (by omega) h (hs.append (by omega))
            rw [slots_append]
            omega

theorem ofBytes_sound {data : Bytes} {pool : Pool} (h : ofBytes data = .ok pool) :
    pool.Sound := by
  obtain ⟨d, h⟩ := Reader.read_eq_ok_iff.1 h
  simp only [reader, Reader.bind_eq_ok_iff] at h
  rcases h with ⟨count, m, -, h⟩
  split at h
  · simp [Reader.bind_eq_ok_iff] at h
  · have hcount : count.toNat < 65536 := count.toNat_lt
    apply fill_sound h new_sound
    simp only [new, slots, maxSlots, List.size_toArray, List.length_singleton]
    omega

theorem Addition.edit_sound (addition : Addition) {pool : Pool} (hs : pool.Sound) :
    (addition.edit pool).2.Sound ∧ (addition.edit pool).2.Extends pool := by
  cases addition with
  | constant c => exact (add_ensures c).pool hs
  | text t => exact (addText_ensures t).pool hs
  | className name => exact (addClass_ensures name).pool hs
  | string t => exact (addString_ensures t).pool hs
  | nameAndType name descriptor => exact (addNameAndType_ensures name descriptor).pool hs
  | methodRef method => exact (addMethodRef_ensures method).pool hs

theorem Built.sound {pool : Pool} (h : Built pool) : pool.Sound := by
  induction h with
  | new => exact new_sound
  | ofBytes h => exact ofBytes_sound h
  | add _ addition ih => exact (addition.edit_sound ih).1

end CallProbe.Pool
