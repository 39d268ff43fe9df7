/-!
# UTF-16

Text as a sequence of 16-bit units. A character beyond the sixteenth bit is a
pair of surrogates; units that pair up differently are no text.
-/

namespace CallProbe.Utf16

def ofChar (c : Char) : List UInt16 :=
  let n := c.toNat
  if n < 0x10000 then [UInt16.ofNat n]
  else
    [UInt16.ofNat (0xD800 + (n - 0x10000) / 0x400), UInt16.ofNat (0xDC00 + (n - 0x10000) % 0x400)]

def ofString (s : String) : List UInt16 := s.toList.flatMap ofChar

/-- The first half of a surrogate pair. -/
def isLeading (unit : UInt16) : Bool := 0xD800 ≤ unit.toNat && unit.toNat ≤ 0xDBFF

/-- The second half of a surrogate pair. -/
def isTrailing (unit : UInt16) : Bool := 0xDC00 ≤ unit.toNat && unit.toNat ≤ 0xDFFF

def pair (leading trailing : UInt16) : Char :=
  Char.ofNat (0x10000 + (leading.toNat - 0xD800) * 0x400 + (trailing.toNat - 0xDC00))

/-- The characters that `units` spell, after those already `found`. -/
def charsAfter (found : List Char) : List UInt16 → Option (List Char)
  | [] => some found.reverse
  | unit :: rest =>
    if isLeading unit then
      match rest with
      | [] => none
      | trailing :: rest =>
        if isTrailing trailing then charsAfter (pair unit trailing :: found) rest else none
    else if isTrailing unit then none
    else charsAfter (Char.ofNat unit.toNat :: found) rest

/-- The text that `units` spell, if every surrogate is paired. -/
def toString? (units : List UInt16) : Option String :=
  (charsAfter [] units).map String.ofList

end CallProbe.Utf16
