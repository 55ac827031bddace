import Footage.Text.Decimal

/-!
# Settings as a tree

Settings come as trees of tables whose leaves are scalars. Several sources are laid over one another:
tables are joined name by name, and anything else takes the place of what was there.
-/

namespace Footage.Config

/-- A decimal number with a fraction or an exponent, or one too large for a stored number. -/
structure Real where
  negative : Bool
  digits : Nat
  /-- The power of ten that scales the digits. -/
  scale : Int
  deriving DecidableEq, Repr

namespace Real

/-- The number that a text writes: a sign, digits with a point, of which one side may be empty, and an
exponent. -/
def parse? (cs : List Char) : Option Real := do
  let (negative, cs) := match cs with
    | '-' :: r => (true, r)
    | '+' :: r => (false, r)
    | r => (false, r)
  let whole := cs.takeWhile Char.isDigit
  let (fraction, tail) := match cs.dropWhile Char.isDigit with
    | '.' :: r => (r.takeWhile Char.isDigit, r.dropWhile Char.isDigit)
    | r => ([], r)
  guard (¬ (whole ++ fraction).isEmpty)
  let exponent ← match tail with
    | [] => some 0
    | c :: r => if c = 'e' ∨ c = 'E' then signed? r else none
  return ⟨negative, Decimal.value (whole ++ fraction), exponent - fraction.length⟩
where
  /-- The digits of an exponent, with a sign or without. -/
  signed? (cs : List Char) : Option Int := do
    let (negative, ds) := match cs with
      | '-' :: r => (true, r)
      | '+' :: r => (false, r)
      | r => (false, r)
    guard (¬ ds.isEmpty ∧ ds.all Char.isDigit)
    return if negative then - (Decimal.value ds : Int) else Decimal.value ds

/-- The most digits that are looked at before or after the point. -/
def maxShift : Nat := 400

/-- The nearest natural number with 53 significant binary digits, where a tie goes to the even one. -/
def roundDouble (n : Nat) : Nat :=
  let unit := Nat.pow 2 (n.log2 - 52)
  let down := n / unit
  let rest := 2 * (n % unit)
  (if unit < rest ∨ (rest = unit ∧ down % 2 = 1) then down + 1 else down) * unit

/-- The nearest natural number, where a half goes up and a negative number to zero. -/
def toNat (r : Real) : Nat :=
  let up := min r.scale.toNat maxShift
  let down := min (-r.scale).toNat maxShift
  if r.negative then 0
  else roundDouble ((2 * r.digits * Nat.pow 10 up + Nat.pow 10 down) / (2 * Nat.pow 10 down))

/-- The number without an exponent: the digits before the point, and those after it without zeros at
the end. -/
def text (r : Real) : String :=
  let up := min r.scale.toNat maxShift
  let down := min (-r.scale).toNat maxShift
  let whole := r.digits * Nat.pow 10 up / Nat.pow 10 down
  let ds := Decimal.ofNat (r.digits * Nat.pow 10 up % Nat.pow 10 down)
  let fraction := ((List.replicate (down - ds.length) '0' ++ ds).reverse.dropWhile (· = '0')).reverse
  String.ofList ((if r.negative then ['-'] else []) ++ Decimal.ofNat whole ++
    if down = 0 ∨ fraction.isEmpty then [] else '.' :: fraction)

end Real

/-- A tree of settings. -/
inductive Tree
  | null
  | truth (b : Bool)
  | integer (n : Int)
  | real (r : Real)
  | text (s : String)
  | list (items : List Tree)
  | table (entries : List (String × Tree))

namespace Tree

/-- The table without entries. -/
def nothing : Tree := table []

/-- The entries of a table. -/
def entries : Tree → List (String × Tree)
  | table es => es
  | _ => []

/-- The entries with a name bound to a tree. -/
def bind (name : String) (t : Tree) : List (String × Tree) → List (String × Tree)
  | [] => [(name, t)]
  | e :: rest => if e.1 = name then (name, t) :: rest else e :: bind name t rest

mutual

/-- Lay a tree over what `below` has under a name. -/
def layAt (name : String) (below : Tree) : Tree → Tree
  | table es => table (bind name (layAll ((below.entries.lookup name).getD nothing) es) below.entries)
  | t => table (bind name t below.entries)

/-- Lay entries over a tree, which becomes a table if it is none and there are entries. -/
def layAll (below : Tree) : List (String × Tree) → Tree
  | [] => below
  | (name, t) :: rest => layAll (layAt name below t) rest

end

/-- The tree that has `t` at the end of a path of names. -/
def atPath (t : Tree) : List String → Tree
  | [] => t
  | name :: rest => table [(name, atPath t rest)]

/-- The name as it is looked up: letters of either case are the same. -/
def fold (name : String) : String := name.map Char.toLower

/-! ## Reading settings -/

/-- The settings of a section, in the order of the names: a table has them by name, a list in order. -/
def section? (names : List String) : Option Tree → Option (List (Option Tree))
  | none => some (names.map fun _ => none)
  | some (table es) => some (names.map (List.lookup · es))
  | some (list items) => some ((List.range names.length).map fun i => items[i]?)
  | some _ => none

/-- The value of a setting, or its default. -/
def setting {α : Type} (read : Tree → Option α) (default : α) : Option Tree → Option α
  | none => some default
  | some t => read t

/-- The value of a setting that null leaves open. -/
def orNull {α : Type} (read : Tree → Option α) : Tree → Option (Option α)
  | null => some none
  | t => (read t).map some

/-- The digits of a number, which may have a plus sign. -/
def unsigned? (cs : List Char) : Option Nat :=
  let ds := match cs with
    | '+' :: r => r
    | r => r
  if ds.isEmpty ∨ ¬ ds.all Char.isDigit then none
  else if Decimal.value ds ≤ Density.greatest then some (Decimal.value ds) else none

/-- A count. Words for yes and no count as one and zero. -/
def toCount? : Tree → Option Nat
  | integer n => if 0 ≤ n then some n.toNat else none
  | truth b => some b.toNat
  | real r => some (min r.toNat Density.greatest)
  | text s =>
    if ["true", "on", "yes"].contains (fold s) then some 1
    else if ["false", "off", "no"].contains (fold s) then some 0
    else unsigned? s.toList
  | _ => none

/-- A count of at most `limit`. -/
def toCountUpTo? (limit : Nat) (t : Tree) : Option Nat := do
  let n ← t.toCount?
  if n ≤ limit then some n else none

/-- A text. Numbers and truth values count as the text that writes them. -/
def toText? : Tree → Option String
  | text s => some s
  | integer n => some (toString n)
  | real r => some r.text
  | truth b => some (if b then "true" else "false")
  | _ => none

/-- A word out of a list: a text, or the only name of a table. -/
def toWord? : Tree → Option String
  | text s => some (fold s)
  | table [(name, _)] => some (fold name)
  | _ => none

end Tree

end Footage.Config
