import Footage.Json.Lexeme

/-!
# JSON values

A value is read from its lexemes by a machine with a stack of the arrays and objects that are still
open, so nesting is as deep as the text has it, unless a limit is set. Members of an object are
kept in order, repeated names included.
-/

namespace Footage.Json

/-- A JSON value. A string or a name without a value is one that is not usable. -/
inductive Value
  | null
  | truth (b : Bool)
  | number (n : Numeral)
  | string (s : Option String)
  | array (items : List Value)
  | object (members : List (Option String × Value))

namespace Value

instance : Inhabited Value := ⟨null⟩

/-- An array or object that is still open, with its parts in reverse order. -/
inductive Frame
  | array (items : List Value)
  /-- The value of `name` is awaited. -/
  | object (members : List (Option String × Value)) (name : Option String)

/-- What may follow. -/
inductive State
  /-- A value. -/
  | value (outer : List Frame)
  /-- A value, or the end of the array that was just opened. -/
  | first (outer : List Frame)
  /-- A name. -/
  | name (members : List (Option String × Value)) (outer : List Frame)
  /-- A name, or the end of the object that was just opened. -/
  | firstName (outer : List Frame)
  /-- The colon after a name. -/
  | colon (members : List (Option String × Value)) (name : Option String) (outer : List Frame)
  /-- What follows a value: a comma, the end of what it is in, or the end of the text. -/
  | after (v : Value) (outer : List Frame)

/-- The value that a lexeme is, or begins. -/
def begin (limit : Option Nat) (outer : List Frame) : Lexeme → Option State
  | .null => some (.after .null outer)
  | .truth b => some (.after (.truth b) outer)
  | .number n => some (.after (.number n) outer)
  | .string s => some (.after (.string s) outer)
  | .openArray => if limit.all (outer.length < ·) then some (.first outer) else none
  | .openObject => if limit.all (outer.length < ·) then some (.firstName outer) else none
  | _ => none

/-- One more lexeme. -/
def step (limit : Option Nat) : State → Lexeme → Option State
  | .value outer, l => begin limit outer l
  | .first outer, .closeArray => some (.after (.array []) outer)
  | .first outer, l => begin limit (.array [] :: outer) l
  | .firstName outer, .closeObject => some (.after (.object []) outer)
  | .firstName outer, .string s => some (.colon [] s outer)
  | .name ms outer, .string s => some (.colon ms s outer)
  | .colon ms n outer, .colon => some (.value (.object ms n :: outer))
  | .after v (.array vs :: outer), .comma => some (.value (.array (v :: vs) :: outer))
  | .after v (.array vs :: outer), .closeArray => some (.after (.array (v :: vs).reverse) outer)
  | .after v (.object ms n :: outer), .comma => some (.name ((n, v) :: ms) outer)
  | .after v (.object ms n :: outer), .closeObject =>
    some (.after (.object ((n, v) :: ms).reverse) outer)
  | _, _ => none

/-- The state after the lexemes. -/
def run (limit : Option Nat) (s : State) : List Lexeme → Option State
  | [] => some s
  | l :: rest =>
    match step limit s l with
    | some s => run limit s rest
    | none => none

/-- The value that the lexemes write; where a limit is given it is the most arrays and objects that
may be open at a time. -/
def ofLexemes? (limit : Option Nat) (ls : List Lexeme) : Option Value :=
  match run limit (.value []) ls with
  | some (.after v []) => some v
  | _ => none

/-- The value that a text writes. -/
def ofSymbols? (symbols : List Text.Symbol) : Option Value := do
  ofLexemes? none (← Lexeme.ofSymbols? symbols)

/-- The value that a text writes, if all its lexemes are sound and at most `depth` arrays and objects
are open at a time. -/
def ofSoundSymbols? (depth : Nat) (symbols : List Text.Symbol) : Option Value := do
  let ls ← Lexeme.ofSymbols? symbols
  if ls.all (·.isSound) then ofLexemes? (some depth) ls else none

end Value

end Footage.Json
