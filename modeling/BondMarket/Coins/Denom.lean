/-!
Denominations. A denomination starts with a small letter and goes on with two to sixty-three
small letters, ASCII digits or slashes. One line feed at the very end of the text is overlooked
when a denomination is checked.
-/

namespace BondMarket

abbrev Denom := String

abbrev Account := String

namespace Denom

def isLower (c : Char) : Bool := 'a' ≤ c && c ≤ 'z'

def isAsciiDigit (c : Char) : Bool := '0' ≤ c && c ≤ '9'

def isInner (c : Char) : Bool := isLower c || isAsciiDigit c || c == '/'

def isBody : List Char → Bool
  | [] => false
  | c :: r => isLower c && r.all isInner && 2 ≤ r.length && r.length ≤ 63

/-- A text without one line feed at its end. -/
def dropFinalNewline (cs : List Char) : List Char :=
  match cs.reverse with
  | '\n' :: r => r.reverse
  | _ => cs

def isValid (s : String) : Bool := isBody (dropFinalNewline s.toList)

end Denom
end BondMarket
