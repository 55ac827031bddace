import Footage.Json.Value

/-!
# Written values

Values are written without blanks. In strings quotes, backslashes and control characters are escaped
and all else stands for itself.
-/

namespace Footage.Json

/-- A hexadecimal digit. -/
def hexDigit (n : Nat) : Char :=
  if n < 10 then Char.ofNat ('0'.toNat + n) else Char.ofNat ('a'.toNat + (n - 10))

/-- A character inside a string. -/
def escaped (c : Char) : List Char :=
  if c = '"' then ['\\', '"']
  else if c = '\\' then ['\\', '\\']
  else if c = '\x08' then ['\\', 'b']
  else if c = '\x0c' then ['\\', 'f']
  else if c = '\n' then ['\\', 'n']
  else if c = '\r' then ['\\', 'r']
  else if c = '\t' then ['\\', 't']
  else if c.toNat < 0x20 then
    ['\\', 'u', '0', '0', hexDigit (c.toNat / 16), hexDigit (c.toNat % 16)]
  else [c]

/-- A string in quotes; one that has no value is written as half of a surrogate pair. -/
def quoted : Option String → List Char
  | some s => '"' :: s.toList.flatMap escaped ++ ['"']
  | none => "\"\\ud800\"".toList

/-- The digits of a number, followed by the power of ten that scales them unless it is whole. -/
def Numeral.written (n : Numeral) : List Char :=
  n.chars ++ if n.whole then [] else 'e' :: Decimal.ofInt n.scale

namespace Value

mutual

/-- The characters that write a value. -/
def chars : Value → List Char
  | null => "null".toList
  | truth true => "true".toList
  | truth false => "false".toList
  | number n => n.written
  | string s => quoted s
  | array [] => ['[', ']']
  | array (v :: vs) => '[' :: v.chars ++ itemChars vs
  | object [] => ['\x7b', '\x7d']
  | object ((n, v) :: ms) => '\x7b' :: quoted n ++ ':' :: v.chars ++ memberChars ms

/-- The items of an array after its first, and its end. -/
def itemChars : List Value → List Char
  | [] => [']']
  | v :: vs => ',' :: v.chars ++ itemChars vs

/-- The members of an object after its first, and its end. -/
def memberChars : List (Option String × Value) → List Char
  | [] => ['\x7d']
  | (n, v) :: ms => ',' :: quoted n ++ ':' :: v.chars ++ memberChars ms

end

/-- The text that writes a value. -/
def text (v : Value) : String := String.ofList v.chars

end Value

end Footage.Json
