import CallProbe.Pool.Basic

/-!
# Symbols of a pool

Names, strings and member references by their text: how a pool resolves an index to
them, and how they are added. Adding puts in whatever part is missing, innermost
first.
-/

namespace CallProbe

/-- A resolved member reference. -/
structure MemberRef where
  owner : String
  name : String
  descriptor : String
  isInterface : Bool
  deriving DecidableEq, Repr

namespace Pool

/-! ## Resolving -/

def text (pool : Pool) (index : UInt16) : Except Fault String := do
  match ← pool.get index with
  | .utf8 text => return text
  | .rawUtf8 _ => throw (.malformed (.constantNotText index))
  | _ => throw (.constantPoolIndex index)

/-- The name of the class at an index. -/
def className (pool : Pool) (index : UInt16) : Except Fault String := do
  match ← pool.get index with
  | .classRef name => pool.text name
  | _ => throw (.constantPoolIndex index)

/-- The name and the descriptor at an index. -/
def nameAndType (pool : Pool) (index : UInt16) : Except Fault (String × String) := do
  match ← pool.get index with
  | .nameAndType name descriptor => return (← pool.text name, ← pool.text descriptor)
  | _ => throw (.constantPoolIndex index)

def memberRef (pool : Pool) (index : UInt16) : Except Fault MemberRef := do
  match ← pool.get index with
  | .member kind owner signature =>
    let (name, descriptor) ← pool.nameAndType signature
    let owner ← pool.className owner
    return { owner, name, descriptor, isInterface := kind = .interfaceMethod }
  | _ => throw (.constantPoolIndex index)

/-! ## Adding -/

def addText (text : String) : Edit UInt16 := add (.utf8 text)

/-- The index of a class by its name. -/
def addClass (name : String) : Edit UInt16 := do
  add (.classRef (← addText name))

def addString (text : String) : Edit UInt16 := do
  add (.string (← addText text))

def addNameAndType (name descriptor : String) : Edit UInt16 := do
  let name ← addText name
  let descriptor ← addText descriptor
  add (.nameAndType name descriptor)

def addMethodRef (method : MemberRef) : Edit UInt16 := do
  let owner ← addClass method.owner
  let signature ← addNameAndType method.name method.descriptor
  add (.member (if method.isInterface then .interfaceMethod else .method) owner signature)

end Pool

end CallProbe
