import Footage.Stamp

/-!
# Decimal numbers

Stored numbers are written in decimal digits, with a minus sign in front of the negative ones.
Reading also takes a plus sign and leading zeros; it goes through the digits from the left and stops
at the first character that is no digit or takes the number out of range.
-/

namespace Footage.Decimal

/-- The digits of a natural number. -/
def ofNat (n : Nat) : List Char := Nat.toDigits 10 n

/-- The digits of an integer, with its sign if that is a minus. -/
def ofInt : Int → List Char
  | .ofNat n => ofNat n
  | .negSucc n => '-' :: ofNat (n + 1)

/-- The value of a digit. -/
def digit (c : Char) : Nat := c.toNat - '0'.toNat

/-- The number that digits write. -/
def value (cs : List Char) : Nat := Nat.ofDigitChars 10 cs 0

/-- Why a text is not a number. -/
inductive Fault
  | empty
  | notDigit
  | tooLarge
  | tooSmall
  deriving DecidableEq, Repr

namespace Fault

def message : Fault → String
  | empty => "cannot parse integer from empty string"
  | notDigit => "invalid digit found in string"
  | tooLarge => "number too large to fit in target type"
  | tooSmall => "number too small to fit in target type"

end Fault

/-- Digits that follow the number `n` read so far, counted downwards if it is negative. -/
def readDigits (negative : Bool) (n : Int) : List Char → Except Fault Int
  | [] => .ok n
  | c :: rest =>
    if c.isDigit then
      let m := if negative then 10 * n - digit c else 10 * n + digit c
      if Stamp.Fits m then readDigits negative m rest
      else .error (if negative then .tooSmall else .tooLarge)
    else .error .notDigit

/-- Digits, of which there has to be one. -/
def readUnsigned (negative : Bool) : List Char → Except Fault Int
  | [] => .error .notDigit
  | cs => readDigits negative 0 cs

/-- The stored number that a text writes. -/
def read : List Char → Except Fault Int
  | [] => .error .empty
  | '+' :: rest => readUnsigned false rest
  | '-' :: rest => readUnsigned true rest
  | cs => readDigits false 0 cs

end Footage.Decimal
