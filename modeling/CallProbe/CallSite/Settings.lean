/-!
# Settings

Which calls may be substituted, and whether that creates objectives.
-/

namespace CallProbe

/-- How methods are instrumented. -/
structure Settings where
  /-- Whether substituted calls register objectives and are told their template. -/
  register : Bool := true
  /-- What the name of an owner starts with, so that calls of it may be substituted. -/
  owners : List String := ["java/"]
  /-- Whether the methods of a class may be prepared at the same time. -/
  parallel : Bool := true
  deriving DecidableEq, Repr

namespace Settings

/-- For classes whose objectives are known already. -/
def withoutRegistration : Settings := { register := false }

def sequential : Settings := { parallel := false }

/-- Whether calls of an owner may be substituted. -/
def admits (settings : Settings) (owner : String) : Bool :=
  settings.owners.any (owner.startsWith ·)

end Settings

end CallProbe
