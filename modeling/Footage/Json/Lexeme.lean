import Footage.Json.Numeral
import Footage.Text.Utf8

/-!
# Lexemes of a JSON text

A text is cut into brackets, commas, colons, words, numbers and strings. The reader keeps a mode
that says what it is in the middle of, and takes one symbol at a time. A string is first collected in
pieces, and is usable if its escapes write whole characters and no stray byte is in it. A string
that is not usable is still a lexeme: where nobody asks for its value it does no harm.
-/

namespace Footage.Json

open Footage.Text

/-- A part of a string. -/
inductive Piece
  | char (c : Char)
  /-- Four hexadecimal digits: a character, or one half of a surrogate pair. -/
  | unit (u : Nat)
  /-- A byte that belongs to no character. -/
  | stray
  deriving DecidableEq, Repr

namespace Piece

/-- The unit is the first half of a pair. -/
def IsHigh (u : Nat) : Prop := 0xD800 ≤ u ∧ u < 0xDC00

/-- The unit is the second half of a pair. -/
def IsLow (u : Nat) : Prop := 0xDC00 ≤ u ∧ u < 0xE000

instance : DecidablePred IsHigh := fun u => inferInstanceAs (Decidable (0xD800 ≤ u ∧ u < 0xDC00))
instance : DecidablePred IsLow := fun u => inferInstanceAs (Decidable (0xDC00 ≤ u ∧ u < 0xE000))

/-- The character that a pair stands for. -/
def ofPair (high low : Nat) : Char :=
  Char.ofNat (0x10000 + (high - 0xD800) * 0x400 + (low - 0xDC00))

/-- The characters that the pieces make up. -/
def assemble : List Piece → Option (List Char)
  | [] => some []
  | .char c :: rest => (assemble rest).map (c :: ·)
  | .stray :: _ => none
  | .unit u :: .unit v :: rest =>
    if IsHigh u then
      if IsLow v then (assemble rest).map (ofPair u v :: ·) else none
    else if IsLow u then none
    else (assemble (.unit v :: rest)).map (Char.ofNat u :: ·)
  | .unit u :: rest =>
    if IsHigh u ∨ IsLow u then none else (assemble rest).map (Char.ofNat u :: ·)

end Piece

/-- The smallest parts of a JSON text. -/
inductive Lexeme
  | openObject
  | closeObject
  | openArray
  | closeArray
  | comma
  | colon
  | null
  | truth (b : Bool)
  | number (n : Numeral)
  /-- A string, with its value if it is usable. -/
  | string (s : Option String)
  deriving DecidableEq, Repr

namespace Lexeme

/-- The lexeme has a value: a usable string, a number that is finite in double precision, or
anything else. -/
def isSound : Lexeme → Bool
  | string s => s.isSome
  | number n => n.isFinite
  | _ => true

def ofPieces (ps : List Piece) : Lexeme := string ((Piece.assemble ps).map String.ofList)

/-- The word that the characters write. -/
def ofWord? (cs : List Char) : Option Lexeme :=
  if cs = "null".toList then some null
  else if cs = "true".toList then some (truth true)
  else if cs = "false".toList then some (truth false)
  else none

/-- What the reader is in the middle of; the parts read so far are in reverse order. -/
inductive Mode
  | between
  | numeral (seen : List Char)
  | word (seen : List Char)
  | string (seen : List Piece)
  | escape (seen : List Piece)
  | hex (seen : List Piece) (left value : Nat)

/-- The blanks between lexemes. -/
def isSpace (c : Char) : Bool := c = ' ' || c = '\t' || c = '\n' || c = '\r'

/-- The characters that a number may have after its first. -/
def isNumeralChar (c : Char) : Bool :=
  c.isDigit || c = '-' || c = '+' || c = '.' || c = 'e' || c = 'E'

/-- The value of a hexadecimal digit. -/
def hexDigit? (c : Char) : Option Nat :=
  if '0' ≤ c ∧ c ≤ '9' then some (c.toNat - '0'.toNat)
  else if 'a' ≤ c ∧ c ≤ 'f' then some (c.toNat - 'a'.toNat + 10)
  else if 'A' ≤ c ∧ c ≤ 'F' then some (c.toNat - 'A'.toNat + 10)
  else none

/-- The character that a one-letter escape stands for. -/
def unescape? : Char → Option Char
  | '"' => some '"'
  | '\\' => some '\\'
  | '/' => some '/'
  | 'b' => some '\x08'
  | 'f' => some '\x0c'
  | 'n' => some '\n'
  | 'r' => some '\r'
  | 't' => some '\t'
  | _ => none

/-- The first character of a lexeme, or a blank before it. -/
def start (c : Char) : Option (List Lexeme × Mode) :=
  if isSpace c then some ([], .between)
  else if c.isDigit ∨ c = '-' then some ([], .numeral [c])
  else if c.isLower then some ([], .word [c])
  else match c with
    | '"' => some ([], .string [])
    | '{' => some ([openObject], .between)
    | '}' => some ([closeObject], .between)
    | '[' => some ([openArray], .between)
    | ']' => some ([closeArray], .between)
    | ',' => some ([comma], .between)
    | ':' => some ([colon], .between)
    | _ => none

/-- One more symbol, with the lexemes that it completes. Control characters are refused in strings,
and a byte that belongs to no character everywhere else. -/
def step : Mode → Symbol → Option (List Lexeme × Mode)
  | .between, some c => start c
  | .numeral seen, some c =>
    if isNumeralChar c then some ([], .numeral (c :: seen))
    else do
      let n ← Numeral.ofChars? seen.reverse
      let (ls, m) ← start c
      return (number n :: ls, m)
  | .word seen, some c =>
    if c.isLower then some ([], .word (c :: seen))
    else do
      let w ← ofWord? seen.reverse
      let (ls, m) ← start c
      return (w :: ls, m)
  | .string seen, some c =>
    if c = '"' then some ([ofPieces seen.reverse], .between)
    else if c = '\\' then some ([], .escape seen)
    else if c.toNat < 0x20 then none
    else some ([], .string (.char c :: seen))
  | .string seen, none => some ([], .string (.stray :: seen))
  | .escape seen, some c =>
    if c = 'u' then some ([], .hex seen 4 0)
    else (unescape? c).map fun d => ([], .string (.char d :: seen))
  | .hex seen left value, some c => do
    let value := value * 16 + (← hexDigit? c)
    return ([], if left = 1 then .string (.unit value :: seen) else .hex seen (left - 1) value)
  | _, none => none

/-- The lexemes that the end of the text completes. -/
def finish : Mode → Option (List Lexeme)
  | .between => some []
  | .numeral seen => (Numeral.ofChars? seen.reverse).map fun n => [number n]
  | .word seen => (ofWord? seen.reverse).map fun w => [w]
  | _ => none

/-- The lexemes of the symbols, after those read so far, which are in reverse order. -/
def read (mode : Mode) (seen : List Lexeme) : List Symbol → Option (List Lexeme)
  | [] => (finish mode).map (seen.reverse ++ ·)
  | s :: rest =>
    match step mode s with
    | some (ls, mode) => read mode (ls.reverse ++ seen) rest
    | none => none

/-- The lexemes of a text. -/
def ofSymbols? (symbols : List Symbol) : Option (List Lexeme) := read .between [] symbols

end Lexeme

end Footage.Json
