import Footage.Text.Decimal

/-!
# Numbers of a JSON text

A number is kept as it is written: its digits as one natural number, the power of ten that they are
scaled by, and whether it has a fraction or an exponent. Only a number without either is an integer,
and a zero with a minus sign is none.
-/

namespace Footage.Json

/-- A number of a JSON text. -/
structure Numeral where
  negative : Bool
  /-- The digits before and after the point, read as one number. -/
  digits : Nat
  /-- The power of ten that scales the digits. -/
  scale : Int
  /-- There is neither a fraction nor an exponent. -/
  whole : Bool
  deriving DecidableEq, Repr

namespace Numeral

def ofInt : Int → Numeral
  | .ofNat n => ⟨false, n, 0, true⟩
  | .negSucc n => ⟨true, n + 1, 0, true⟩

def ofNat (n : Nat) : Numeral := ⟨false, n, 0, true⟩

/-- The integer that is written. -/
def toInt? (n : Numeral) : Option Int :=
  if ¬ n.whole ∨ (n.negative ∧ n.digits = 0) then none
  else some (if n.negative then - (n.digits : Int) else n.digits)

/-- Digits, of which there has to be one, and what follows them. -/
def digits? (cs : List Char) : Option (List Char × List Char) :=
  match cs.takeWhile Char.isDigit with
  | [] => none
  | ds => some (ds, cs.dropWhile Char.isDigit)

/-- The whole part: a zero, or digits of which the first is another. -/
def wholePart? (cs : List Char) : Option (List Char × List Char) := do
  let (ds, rest) ← digits? cs
  if ds.length ≠ 1 ∧ ds.head? = some '0' then none else some (ds, rest)

/-- The digits of a fraction, which may be missing. -/
def fraction? : List Char → Option (List Char × List Char)
  | '.' :: rest => digits? rest
  | cs => some ([], cs)

/-- The exponent, up to the end. -/
def exponent? : List Char → Option Int
  | [] => some 0
  | c :: rest =>
    if c = 'e' ∨ c = 'E' then do
      let (negative, rest) := match rest with
        | '+' :: r => (false, r)
        | '-' :: r => (true, r)
        | r => (false, r)
      let (ds, rest) ← digits? rest
      guard rest.isEmpty
      return if negative then - (Decimal.value ds : Int) else Decimal.value ds
    else none

/-- The number that the characters write. -/
def ofChars? (cs : List Char) : Option Numeral := do
  let (negative, cs) := match cs with
    | '-' :: r => (true, r)
    | r => (false, r)
  let (ds, rest) ← wholePart? cs
  let (fs, tail) ← fraction? rest
  let e ← exponent? tail
  return ⟨negative, Decimal.value (ds ++ fs), e - fs.length, rest.isEmpty⟩

/-- The characters that write an integer. -/
def chars (n : Numeral) : List Char :=
  (if n.negative then ['-'] else []) ++ Decimal.ofNat n.digits

/-- The least natural number that rounds to no finite number of double precision. -/
def doubleLimit : Nat := Nat.pow 2 1024 - Nat.pow 2 970

/-- The number rounded to the 53 bits of double precision, halves to the even neighbour. -/
def toDouble (n : Nat) : Nat :=
  let unit := Nat.pow 2 (Nat.log2 n - 52)
  let kept := n / unit
  let lost := n % unit
  if 2 * lost < unit ∨ (2 * lost = unit ∧ kept % 2 = 0) then kept * unit else (kept + 1) * unit

/-- The digits read as far as the number stays a density, after the number `n`, and how many digits
are left. -/
def absorb (n : Nat) : List Char → Nat × Nat
  | [] => (n, 0)
  | c :: rest =>
    let m := 10 * n + Decimal.digit c
    if m ≤ Density.greatest then absorb m rest else (n, rest.length + 1)

/-- The number is finite in double precision. It is found by one multiplication: the leading digits
and the power of ten that scales them are rounded each, and then their product. -/
def isFinite (n : Numeral) : Bool :=
  let (leading, left) := absorb 0 (Decimal.ofNat n.digits)
  let power := n.scale + left
  leading = 0 ∨ power ≤ 0 ∨
    power ≤ 308 ∧ toDouble leading * toDouble (Nat.pow 10 power.toNat) < doubleLimit

end Numeral

end Footage.Json
