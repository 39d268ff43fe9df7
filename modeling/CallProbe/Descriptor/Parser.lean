import CallProbe.Fault
import CallProbe.Descriptor.Basic

/-!
# Reading descriptors

A field descriptor is at most 255 opening brackets before a base type; the name of
an object type is not empty and free of `;`, `.` and `[`. A text that is not wholly
consumed is refused.
-/

namespace CallProbe

namespace FieldType

/-- Highest number of array dimensions. -/
def maxDimensions : Nat := 255

/-- Whether a character may stand in the name of an object type. -/
def isNameChar (c : Char) : Bool := c != ';' && c != '.' && c != '['

/-- The primitive type of a letter. -/
def ofLetter? : Char → Option FieldType
  | 'B' => some byte
  | 'C' => some char
  | 'D' => some double
  | 'F' => some float
  | 'I' => some int
  | 'J' => some long
  | 'S' => some short
  | 'Z' => some boolean
  | _ => none

/-- The primitive or object type that opens `text`, and what follows it. -/
def readBase? : List Char → Option (FieldType × List Char)
  | [] => none
  | 'L' :: rest =>
    match rest.takeWhile isNameChar, rest.dropWhile isNameChar with
    | name@(_ :: _), ';' :: rest => some (object (String.ofList name), rest)
    | _, _ => none
  | letter :: rest => (ofLetter? letter).map (·, rest)

/-- The type that opens `text`, and what follows it. -/
def read? (text : List Char) : Option (FieldType × List Char) :=
  let depth := (text.takeWhile (· == '[')).length
  if maxDimensions < depth then none
  else (readBase? (text.dropWhile (· == '['))).map fun (type, rest) => (type.nest depth, rest)

theorem length_of_readBase? {text rest : List Char} {type : FieldType}
    (h : readBase? text = some (type, rest)) : rest.length < text.length := by
  unfold readBase? at h
  split at h
  · cases h
  · rename_i tail
    split at h
    · rename_i _ c name after _ following
      cases h
      have := (List.dropWhile_suffix isNameChar (l := tail)).length_le
      rw [following] at this
      simp at this ⊢
      omega
    · cases h
  · obtain ⟨_, _, heq⟩ := Option.map_eq_some_iff.1 h
    cases heq
    simp

theorem length_of_read? {text rest : List Char} {type : FieldType}
    (h : read? text = some (type, rest)) : rest.length < text.length := by
  simp only [read?] at h
  split at h
  · cases h
  · obtain ⟨⟨base, after⟩, hbase, heq⟩ := Option.map_eq_some_iff.1 h
    cases heq
    exact Nat.lt_of_lt_of_le (length_of_readBase? hbase)
      (List.dropWhile_suffix _ (l := text)).length_le

def parse (text : String) : Except Fault FieldType :=
  match read? text.toList with
  | some (type, []) => .ok type
  | _ => .error (.invalidDescriptor text)

end FieldType

namespace MethodDescriptor

/-- The parameters up to the closing parenthesis, after those already `found`, and what follows
the parenthesis. -/
def readParameters? (found : List FieldType) : List Char → Option (List FieldType × List Char)
  | [] => none
  | c :: text =>
    if c = ')' then some (found.reverse, text)
    else
      match _h : FieldType.read? (c :: text) with
      | some (type, rest) => readParameters? (type :: found) rest
      | none => none
termination_by text => text.length
decreasing_by exact FieldType.length_of_read? _h

/-- The return type that `text` spells. -/
def readReturn? : List Char → Option ReturnType
  | ['V'] => some .void
  | text =>
    match FieldType.read? text with
    | some (type, []) => some (.value type)
    | _ => none

/-- The method descriptor that `text` spells. -/
def read? : List Char → Option MethodDescriptor
  | '(' :: text => do
    let (parameters, rest) ← readParameters? [] text
    return { parameters, returns := ← readReturn? rest }
  | _ => none

def parse (text : String) : Except Fault MethodDescriptor :=
  match read? text.toList with
  | some descriptor => .ok descriptor
  | none => .error (.invalidDescriptor text)

end MethodDescriptor

end CallProbe
