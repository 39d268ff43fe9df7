import Std.Data.HashMap

/-!
# Objective stores

A growing set of identifiers. Every identifier keeps the number it got when it was
first registered.
-/

namespace CallProbe

/-- Identifiers in order of registration, and the number of each. -/
structure ObjectiveStore where
  ids : Array String := #[]
  index : Std.HashMap String Nat := ∅

namespace ObjectiveStore

def empty : ObjectiveStore := {}

def length (store : ObjectiveStore) : Nat := store.index.size

def contains (store : ObjectiveStore) (id : String) : Bool := store.index.contains id

def indexOf? (store : ObjectiveStore) (id : String) : Option Nat := store.index[id]?

/-- Registers an identifier and tells whether it is new. -/
def register (store : ObjectiveStore) (id : String) : Bool × ObjectiveStore :=
  if store.index.contains id then (false, store)
  else
    let number := store.ids.size
    (true, { ids := store.ids.push id, index := store.index.insert id number })

def registerAll (store : ObjectiveStore) (ids : List String) : ObjectiveStore :=
  ids.foldl (fun store id => (store.register id).2) store

theorem registerAll_append (store : ObjectiveStore) (ids others : List String) :
    store.registerAll (ids ++ others) = (store.registerAll ids).registerAll others :=
  List.foldl_append

end ObjectiveStore

end CallProbe
