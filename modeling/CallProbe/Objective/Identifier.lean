import CallProbe.Catalog.Candidate

/-!
# Objective identifiers

A substituted call is named by its class, its source line and its number among the
substituted calls of that line. This template is the correlation id of the call; the
two objectives of the call add category and outcome. Lines are padded with zeros,
so that the identifiers of a class sort by line.
-/

namespace CallProbe.Objective

/-- What every identifier starts with. -/
def kindName : String := "MethodReplacement"

/-- Digits a line is padded to. -/
def lineWidth : Nat := 5

def digits (n : Nat) : String := String.ofList (Nat.toDigits 10 n)

/-- The decimal digits of a line, padded with zeros. -/
def paddedLine (line : Nat) : String :=
  String.ofList ((Nat.toDigits 10 line).leftpad lineWidth '0')

/-- The name of a class with dots between its parts. -/
def dottedName (name : String) : String := name.map fun c => if c = '/' then '.' else c

/-- The identifier of a call without its outcome. -/
def template (className : String) (line index : Nat) : String :=
  kindName ++ "_at_" ++ dottedName className ++ "_" ++ paddedLine line ++ "_" ++ digits index

def outcomeName (outcome : Bool) : String := if outcome then "true" else "false"

/-- The identifier of an outcome of a call. -/
def identifier (template : String) (outcome : Bool) (category : Category) : String :=
  template ++ "_" ++ category.name ++ "_" ++ outcomeName outcome

/-- The identifiers of a call, the positive outcome first. -/
def identifiers (template : String) (category : Category) : List String :=
  [identifier template true category, identifier template false category]

end CallProbe.Objective
