/-!
# Descriptors

The types of fields and the signatures of methods, and the text that stands for
them in a class file.
-/

namespace CallProbe

/-- The type of a field, a parameter or a local variable. -/
inductive FieldType where
  | byte
  | char
  | double
  | float
  | int
  | long
  | short
  | boolean
  | object (name : String)
  | array (component : FieldType)
  deriving DecidableEq, Repr

namespace FieldType

/-- Stack or local variable slots a value of the type takes. -/
def slots : FieldType → Nat
  | long | double => 2
  | _ => 1

def isReference : FieldType → Bool
  | object _ | array _ => true
  | _ => false

def dimensions : FieldType → Nat
  | array component => component.dimensions + 1
  | _ => 0

/-- The type that is left when all array dimensions are taken off. -/
def element : FieldType → FieldType
  | array component => component.element
  | type => type

/-- The array type of `depth` dimensions over `type`. -/
def nest (type : FieldType) : Nat → FieldType
  | 0 => type
  | depth + 1 => array (nest type depth)

def chars : FieldType → List Char
  | byte => ['B']
  | char => ['C']
  | double => ['D']
  | float => ['F']
  | int => ['I']
  | long => ['J']
  | short => ['S']
  | boolean => ['Z']
  | object name => 'L' :: name.toList ++ [';']
  | array component => '[' :: component.chars

def text (type : FieldType) : String := String.ofList type.chars

end FieldType

/-- What a method returns. -/
inductive ReturnType where
  | void
  | value (type : FieldType)
  deriving DecidableEq, Repr

def ReturnType.chars : ReturnType → List Char
  | .void => ['V']
  | .value type => type.chars

/-- The parameters of a method, in order, and what it returns. -/
structure MethodDescriptor where
  parameters : List FieldType
  returns : ReturnType
  deriving DecidableEq, Repr

namespace MethodDescriptor

/-- Stack slots of all arguments, a receiver not counted. -/
def argumentSlots (descriptor : MethodDescriptor) : Nat :=
  descriptor.parameters.foldr (fun type slots => type.slots + slots) 0

def chars (descriptor : MethodDescriptor) : List Char :=
  '(' :: descriptor.parameters.flatMap FieldType.chars ++ ')' :: descriptor.returns.chars

def text (descriptor : MethodDescriptor) : String := String.ofList descriptor.chars

/-- The descriptor without its first `skip` parameters and without its last one, if it has at
least `skip + 1`. -/
def inner? (descriptor : MethodDescriptor) (skip : Nat) : Option MethodDescriptor :=
  if skip < descriptor.parameters.length then
    some { descriptor with parameters := (descriptor.parameters.drop skip).dropLast }
  else none

end MethodDescriptor

end CallProbe
