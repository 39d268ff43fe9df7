/-!
# Access flags

The flags of a method. Bits without a meaning for methods are dropped.
-/

namespace CallProbe

structure AccessFlags where
  bits : UInt16
  deriving DecidableEq, Repr

namespace AccessFlags

/-- The flags by name, lowest bit first. -/
def names : List (String × UInt16) := [
  ("PUBLIC", 0x0001),
  ("PRIVATE", 0x0002),
  ("PROTECTED", 0x0004),
  ("STATIC", 0x0008),
  ("FINAL", 0x0010),
  ("SYNCHRONIZED", 0x0020),
  ("BRIDGE", 0x0040),
  ("VARARGS", 0x0080),
  ("NATIVE", 0x0100),
  ("ABSTRACT", 0x0400),
  ("STRICT", 0x0800),
  ("SYNTHETIC", 0x1000)]

def mask : UInt16 := names.foldl (fun bits flag => bits ||| flag.2) 0

def ofBits (bits : UInt16) : AccessFlags := { bits := bits &&& mask }

def isExact (bits : UInt16) : Bool := (ofBits bits).bits == bits

/-- The names of the flags that are set, lowest bit first. -/
def toNames (flags : AccessFlags) : List String :=
  (names.filter fun flag => flags.bits &&& flag.2 == flag.2).map (·.1)

/-- Whether a method with these flags has no body: it is native or abstract. -/
def isBodyless (flags : AccessFlags) : Bool := flags.bits &&& 0x0500 != 0

end AccessFlags

end CallProbe
