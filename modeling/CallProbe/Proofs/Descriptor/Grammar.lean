import CallProbe.Descriptor.Parser

/-!
# The grammar of descriptors

A reader returns a type exactly if the text starts with that of the type, and leaves what
follows. No text of a type starts like something else, so the parameters of a method, which
nothing separates, are found again one by one.
-/

namespace CallProbe

namespace FieldType

/-- What a type needs for its text to be read as it. -/
structure Writable (type : FieldType) : Prop where
  named : ∀ name, type.element = object name →
    name ≠ "" ∧ ∀ c ∈ name.toList, c ≠ ';' ∧ c ≠ '.' ∧ c ≠ '['
  shallow : type.dimensions ≤ 255

theorem chars_nest (type : FieldType) (depth : Nat) :
    (type.nest depth).chars = List.replicate depth '[' ++ type.chars := by
  induction depth with
  | zero => rfl
  | succ depth ih =>
      rw [nest, chars, ih, List.replicate_succ]
      rfl

theorem element_nest (type : FieldType) (depth : Nat) :
    (type.nest depth).element = type.element := by
  induction depth with
  | zero => rfl
  | succ depth ih => rw [nest, element, ih]

theorem dimensions_nest (type : FieldType) (depth : Nat) :
    (type.nest depth).dimensions = type.dimensions + depth := by
  induction depth with
  | zero => rfl
  | succ depth ih => rw [nest, dimensions, ih, Nat.add_assoc]

theorem nest_element (type : FieldType) : type.element.nest type.dimensions = type := by
  induction type with
  | array component ih => rw [element, dimensions, nest, ih]
  | _ => rfl

theorem dimensions_element (type : FieldType) : type.element.dimensions = 0 := by
  induction type with
  | array component ih => exact ih
  | _ => rfl

theorem element_element (type : FieldType) : type.element.element = type.element := by
  induction type with
  | array component ih => exact ih
  | _ => rfl

theorem Writable.element {type : FieldType} (h : type.Writable) : type.element.Writable := by
  refine ⟨?_, ?_⟩
  · intro name hname
    exact h.named name (by rwa [element_element] at hname)
  · rw [dimensions_element]
    exact Nat.zero_le _

theorem isNameChar_iff {c : Char} : isNameChar c = true ↔ c ≠ ';' ∧ c ≠ '.' ∧ c ≠ '[' := by
  simp [isNameChar, and_assoc]

/-! ### Single types -/

theorem spelled_of_ofLetter? {letter : Char} {type : FieldType}
    (h : ofLetter? letter = some type) :
    type.chars = [letter] ∧ type.Writable ∧ type.dimensions = 0 := by
  unfold ofLetter? at h
  split at h <;> cases h <;> exact ⟨rfl, ⟨nofun, Nat.zero_le _⟩, rfl⟩

theorem spelled_of_readBase? {text rest : List Char} {type : FieldType}
    (h : readBase? text = some (type, rest)) :
    text = type.chars ++ rest ∧ type.Writable ∧ type.dimensions = 0 := by
  unfold readBase? at h
  split at h
  · cases h
  · rename_i tail
    split at h
    · rename_i first name after taken dropped
      cases h
      have hsplit : tail.takeWhile isNameChar ++ tail.dropWhile isNameChar = tail :=
        List.takeWhile_append_dropWhile
      have hname : ∀ c ∈ tail.takeWhile isNameChar, isNameChar c = true :=
        List.all_eq_true.1 List.all_takeWhile
      rw [taken, dropped] at hsplit
      rw [taken] at hname
      refine ⟨?_, ⟨?_, Nat.zero_le _⟩, rfl⟩
      · rw [chars, ← hsplit, String.toList_ofList, List.cons_append, List.append_assoc]
        rfl
      · rintro spelled heq
        cases heq
        refine ⟨by simp, ?_⟩
        intro c hc
        rw [String.toList_ofList] at hc
        exact isNameChar_iff.1 (hname c hc)
    · cases h
  · rename_i letter tail _
    rcases Option.map_eq_some_iff.1 h with ⟨found, hletter, heq⟩
    cases heq
    rcases spelled_of_ofLetter? hletter with ⟨hchars, hwritable⟩
    rw [hchars]
    exact ⟨rfl, hwritable⟩

theorem readBase?_chars {type : FieldType} (h : type.Writable) (hflat : type.dimensions = 0)
    (rest : List Char) : readBase? (type.chars ++ rest) = some (type, rest) := by
  cases type with
  | object name =>
      rcases h.named name rfl with ⟨hne, hmarks⟩
      have hname : ∀ c ∈ name.toList, isNameChar c = true := fun c hc =>
        isNameChar_iff.2 (hmarks c hc)
      have htaken : (name.toList ++ ';' :: rest).takeWhile isNameChar = name.toList := by
        rw [List.takeWhile_append_of_pos hname, List.takeWhile_cons_of_neg (by decide),
          List.append_nil]
      have hdropped : (name.toList ++ ';' :: rest).dropWhile isNameChar = ';' :: rest := by
        rw [List.dropWhile_append_of_pos hname, List.dropWhile_cons_of_neg (by decide)]
      rcases List.exists_cons_of_ne_nil (mt String.toList_eq_nil_iff.1 hne) with
        ⟨first, others, hcons⟩
      have hspelled : String.ofList (first :: others) = name := by
        rw [← hcons, String.ofList_toList]
      rw [chars, List.append_assoc, List.cons_append, List.singleton_append, readBase?, htaken,
        hdropped, hcons]
      simp only [hspelled]
  | array component => cases hflat
  | _ => rfl

/-- A type without brackets does not start with one. -/
theorem exists_chars_eq_cons_of_flat {type : FieldType} (hflat : type.dimensions = 0) :
    ∃ c tail, type.chars = c :: tail ∧ c ≠ '[' := by
  cases type with
  | array component => cases hflat
  | _ => exact ⟨_, _, rfl, by decide⟩

theorem spelled_of_read? {text rest : List Char} {type : FieldType}
    (h : read? text = some (type, rest)) : text = type.chars ++ rest ∧ type.Writable := by
  simp only [read?] at h
  split at h
  · cases h
  rename_i hdepth
  rcases Option.map_eq_some_iff.1 h with ⟨⟨base, after⟩, hbase, heq⟩
  cases heq
  rcases spelled_of_readBase? hbase with ⟨htext, hwritable, hflat⟩
  have hall : ∀ c ∈ text.takeWhile (· == '['), (c == '[') = true :=
    List.all_eq_true.1 List.all_takeWhile
  have hbrackets : text.takeWhile (· == '[') =
      List.replicate (text.takeWhile (· == '[')).length '[' :=
    List.eq_replicate_iff.2 ⟨rfl, fun c hc => by simpa using hall c hc⟩
  refine ⟨?_, ?_, ?_⟩
  · rw [chars_nest, ← hbrackets, List.append_assoc, ← htext, List.takeWhile_append_dropWhile]
  · intro name hname
    exact hwritable.named name (by rwa [element_nest] at hname)
  · rw [dimensions_nest, hflat, Nat.zero_add]
    exact Nat.not_lt.1 hdepth

theorem read?_chars {type : FieldType} (h : type.Writable) (rest : List Char) :
    read? (type.chars ++ rest) = some (type, rest) := by
  have hchars : type.chars ++ rest =
      List.replicate type.dimensions '[' ++ (type.element.chars ++ rest) := by
    rw [← List.append_assoc, ← chars_nest, nest_element]
  have hbrackets : ∀ c ∈ List.replicate type.dimensions '[', (c == '[') = true := fun c hc => by
    rw [List.eq_of_mem_replicate hc]
    rfl
  have hflat : type.element.dimensions = 0 := dimensions_element type
  rcases exists_chars_eq_cons_of_flat hflat with ⟨first, tail, hcons, hfirst⟩
  have htaken : (type.chars ++ rest).takeWhile (· == '[') =
      List.replicate type.dimensions '[' := by
    rw [hchars, List.takeWhile_append_of_pos hbrackets, hcons, List.cons_append,
      List.takeWhile_cons_of_neg (by simpa using hfirst), List.append_nil]
  have hdropped : (type.chars ++ rest).dropWhile (· == '[') = type.element.chars ++ rest := by
    rw [hchars, List.dropWhile_append_of_pos hbrackets, hcons, List.cons_append,
      List.dropWhile_cons_of_neg (by simpa using hfirst)]
  have hdepth : ¬ maxDimensions < type.dimensions := Nat.not_lt.2 h.shallow
  simp only [read?]
  rw [htaken, hdropped, List.length_replicate, if_neg hdepth, readBase?_chars h.element hflat,
    Option.map_some, nest_element]

/-- A type is read from its text, whatever follows, and from no other text. -/
theorem read?_eq_some_iff {text rest : List Char} {type : FieldType} :
    read? text = some (type, rest) ↔ text = type.chars ++ rest ∧ type.Writable := by
  constructor
  · exact spelled_of_read?
  · rintro ⟨rfl, h⟩
    exact read?_chars h rest

theorem parse_eq_ok_iff {text : String} {type : FieldType} :
    parse text = .ok type ↔ text = type.text ∧ type.Writable := by
  have hread : parse text = .ok type ↔ read? text.toList = some (type, []) := by
    unfold parse
    split
    · rename_i found hfound
      simp [hfound]
    · rename_i hother
      simpa using hother type
  rw [hread, read?_eq_some_iff, List.append_nil, FieldType.text, ← String.toList_inj,
    String.toList_ofList]

end FieldType

/-! ### Method descriptors -/

namespace MethodDescriptor

/-- All types of a descriptor, the return type last. -/
def types (descriptor : MethodDescriptor) : List FieldType :=
  descriptor.parameters ++
    match descriptor.returns with
    | .void => []
    | .value type => [type]

/-- What a descriptor needs for its text to be read as it. -/
def Writable (descriptor : MethodDescriptor) : Prop := ∀ type ∈ descriptor.types, type.Writable

theorem writable_iff {descriptor : MethodDescriptor} : descriptor.Writable ↔
    (∀ type ∈ descriptor.parameters, type.Writable) ∧
      ∀ type, descriptor.returns = .value type → type.Writable := by
  rcases descriptor with ⟨parameters, returns⟩
  cases returns <;> simp [Writable, types, or_imp, forall_and]

theorem spelled_of_readParameters? {found parameters : List FieldType} {text rest : List Char}
    (h : readParameters? found text = some (parameters, rest)) :
    ∃ more, parameters = found.reverse ++ more ∧
      text = more.flatMap FieldType.chars ++ ')' :: rest ∧ ∀ type ∈ more, type.Writable := by
  fun_induction readParameters? found text with
  | case1 => cases h
  | case2 found text =>
      cases h
      exact ⟨[], by rw [List.append_nil], rfl, by simp⟩
  | case3 found c text _ type after hread ih =>
      rcases ih h with ⟨more, hmore, hafter, hwritable⟩
      rcases FieldType.read?_eq_some_iff.1 hread with ⟨htext, htype⟩
      refine ⟨type :: more, ?_, ?_, List.forall_mem_cons.2 ⟨htype, hwritable⟩⟩
      · rw [hmore, List.reverse_cons, List.append_assoc, List.singleton_append]
      · rw [htext, hafter, List.flatMap_cons, List.append_assoc]
  | case4 => cases h

/-- Parameters are read up to the parenthesis that closes them: no type starts with one. -/
theorem readParameters?_chars {more : List FieldType} (h : ∀ type ∈ more, type.Writable)
    (found : List FieldType) (rest : List Char) :
    readParameters? found (more.flatMap FieldType.chars ++ ')' :: rest) =
      some (found.reverse ++ more, rest) := by
  induction more generalizing found with
  | nil => simp [readParameters?]
  | cons type more ih =>
      rcases List.forall_mem_cons.1 h with ⟨htype, hmore⟩
      have hread : FieldType.read? (type.chars ++ (more.flatMap FieldType.chars ++ ')' :: rest)) =
          some (type, more.flatMap FieldType.chars ++ ')' :: rest) :=
        FieldType.read?_eq_some_iff.2 ⟨rfl, htype⟩
      have hfirst : ∃ c tail, type.chars = c :: tail ∧ c ≠ ')' := by
        cases type <;> exact ⟨_, _, rfl, by decide⟩
      rcases hfirst with ⟨c, tail, hcons, hc⟩
      rw [List.flatMap_cons, List.append_assoc]
      rw [hcons, List.cons_append] at hread ⊢
      rw [readParameters?, if_neg hc]
      split
      · rename_i heq
        cases hread.symm.trans heq
        rw [ih hmore, List.reverse_cons, List.append_assoc, List.singleton_append]
      · rename_i heq
        cases hread.symm.trans heq

theorem readReturn?_eq_some_iff {text : List Char} {returns : ReturnType} :
    readReturn? text = some returns ↔
      text = returns.chars ∧ ∀ type, returns = .value type → type.Writable := by
  constructor
  · intro h
    unfold readReturn? at h
    split at h
    · cases h
      exact ⟨rfl, nofun⟩
    · split at h
      · rename_i type hread
        cases h
        rcases FieldType.read?_eq_some_iff.1 hread with ⟨htext, hwritable⟩
        refine ⟨by rw [htext, List.append_nil, ReturnType.chars], ?_⟩
        rintro _ ⟨⟩
        exact hwritable
      · cases h
  · rintro ⟨rfl, h⟩
    cases returns with
    | void => rfl
    | value type =>
        have hread : FieldType.read? type.chars = some (type, []) :=
          FieldType.read?_eq_some_iff.2 ⟨by rw [List.append_nil], h type rfl⟩
        unfold readReturn?
        rw [ReturnType.chars]
        split
        · rename_i hvoid
          cases type <;> cases hvoid
        · rw [hread]

theorem read?_eq_some_iff {text : List Char} {descriptor : MethodDescriptor} :
    read? text = some descriptor ↔ text = descriptor.chars ∧ descriptor.Writable := by
  constructor
  · intro h
    unfold read? at h
    split at h
    · rcases Option.bind_eq_some_iff.1 h with ⟨⟨parameters, rest⟩, hparameters, hrest⟩
      rcases Option.bind_eq_some_iff.1 hrest with ⟨returns, hreturns, heq⟩
      cases heq
      rcases spelled_of_readParameters? hparameters with ⟨more, rfl, htext, hmore⟩
      rcases readReturn?_eq_some_iff.1 hreturns with ⟨hafter, hreturn⟩
      refine ⟨?_, writable_iff.2 ⟨hmore, hreturn⟩⟩
      rw [htext, hafter]
      rfl
    · cases h
  · rintro ⟨rfl, h⟩
    rcases writable_iff.1 h with ⟨hparameters, hreturns⟩
    have hopen := readParameters?_chars hparameters [] descriptor.returns.chars
    have hclose := readReturn?_eq_some_iff.2 ⟨rfl, hreturns⟩
    rw [chars, List.cons_append, read?, hopen]
    simp only [bind, Option.bind, hclose]
    rfl

theorem parse_eq_ok_iff {text : String} {descriptor : MethodDescriptor} :
    parse text = .ok descriptor ↔ text = descriptor.text ∧ descriptor.Writable := by
  have hread : parse text = .ok descriptor ↔ read? text.toList = some descriptor := by
    unfold parse
    cases read? text.toList <;> simp
  rw [hread, read?_eq_some_iff, MethodDescriptor.text, ← String.toList_inj, String.toList_ofList]

end MethodDescriptor

/-! ### Both readers -/

/-- A reader takes exactly the texts of writable values, as these values, and refuses any other
text by naming it. -/
structure ReadsExactly {α : Type} (parse : String → Except Fault α) (text : α → String)
    (Writable : α → Prop) : Prop where
  accepts : ∀ input value, parse input = .ok value ↔ input = text value ∧ Writable value
  refuses : ∀ input, parse input = .error (.invalidDescriptor input) ↔
    ¬ ∃ value, input = text value ∧ Writable value

theorem readsExactly_of_accepts {α : Type} {parse : String → Except Fault α} {text : α → String}
    {Writable : α → Prop}
    (haccepts : ∀ input value, parse input = .ok value ↔ input = text value ∧ Writable value)
    (hfault : ∀ input fault, parse input = .error fault → fault = .invalidDescriptor input) :
    ReadsExactly parse text Writable := by
  refine ⟨haccepts, ?_⟩
  intro input
  cases hparse : parse input with
  | ok value => simpa using ⟨value, (haccepts input value).1 hparse⟩
  | error fault =>
      rw [hfault input fault hparse, eq_self_iff_true, true_iff]
      rintro ⟨value, hvalue⟩
      rw [(haccepts input value).2 hvalue] at hparse
      cases hparse

/-- Both kinds of descriptors are read from their texts and from nothing else. -/
theorem descriptors_read_exactly :
    ReadsExactly MethodDescriptor.parse MethodDescriptor.text MethodDescriptor.Writable ∧
      ReadsExactly FieldType.parse FieldType.text FieldType.Writable := by
  constructor
  · apply readsExactly_of_accepts
    · intro input descriptor
      exact MethodDescriptor.parse_eq_ok_iff
    · intro input fault h
      unfold MethodDescriptor.parse at h
      split at h <;> cases h
      rfl
  · apply readsExactly_of_accepts
    · intro input type
      exact FieldType.parse_eq_ok_iff
    · intro input fault h
      unfold FieldType.parse at h
      split at h <;> cases h
      rfl

-- A name may hold what closes a list of parameters, and what stands for no value.
example : MethodDescriptor.read? "(L)V;[J)V".toList =
    some { parameters := [.object ")V", .array .long], returns := .void } := by
  decide +kernel

end CallProbe
