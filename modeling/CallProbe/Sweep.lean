import CallProbe.Fault

/-!
# Changes that may stop half-way

Moving a table to new offsets changes it entry by entry. When an entry cannot be
moved, those before it have moved already and those behind it have not. A `Swept`
value is what such a change leaves behind, together with how it ended.
-/

namespace CallProbe

/-- What a change leaves behind, and the fault that stopped it, if any. -/
structure Swept (α : Type) where
  value : α
  fault : Option Fault := none

namespace Swept

/-- A change of one field that either happens or is refused. -/
def ofExcept {α β : Type} (change : Except Fault α) (install : α → β) (unchanged : β) : Swept β :=
  match change with
  | .ok value => { value := install value }
  | .error fault => { value := unchanged, fault := some fault }

/-- Goes on with a further change unless one was refused. -/
def andThen {α : Type} (swept : Swept α) (next : α → Swept α) : Swept α :=
  match swept.fault with
  | none => next swept.value
  | some _ => swept

/-- The same with the value embedded in a larger one. -/
def map {α β : Type} (f : α → β) (swept : Swept α) : Swept β :=
  { value := f swept.value, fault := swept.fault }

def outcome {α : Type} (swept : Swept α) : Except Fault Unit :=
  match swept.fault with
  | none => .ok ()
  | some fault => .error fault

/-- The changed value, where nothing is to be left behind by a change that was stopped. -/
def complete {α : Type} (swept : Swept α) : Except Fault α :=
  match swept.fault with
  | none => .ok swept.value
  | some fault => .error fault

/-- Changes the items of a list in order, behind those already `done`. -/
def listAfter {α : Type} (change : α → Swept α) (done : List α) : List α → Swept (List α)
  | [] => { value := done.reverse }
  | item :: rest =>
    let swept := change item
    match swept.fault with
    | none => listAfter change (swept.value :: done) rest
    | some fault => { value := done.reverseAux (swept.value :: rest), fault := some fault }

/-- Changes the items of a list in order. -/
def list {α : Type} (change : α → Swept α) (items : List α) : Swept (List α) :=
  listAfter change [] items

end Swept

end CallProbe
