import Footage.Json.Value

/-!
# Fields of a record

A record is written as an object or as an array. The object may have further members and any order,
but none of the fields twice; the array has exactly the fields, in the order of their declaration.
-/

namespace Footage.Json.Value

/-- The values of the named fields, where a field may be missing from an object. -/
def fields? (names : List String) : Value → Option (List (Option Value))
  | array items => if items.length = names.length then some (items.map some) else none
  | object members => do
    let members ← members.mapM fun m => m.1.map (·, m.2)
    let known := members.filter (names.contains ·.1)
    if (known.map (·.1)).Nodup then some (names.map (List.lookup · known)) else none
  | _ => none

/-- A value for a field that a record must have. -/
def required {α : Type} (read : Value → Option α) : Option Value → Option α
  | some v => read v
  | none => none

/-- A value for a field that may be missing or null. -/
def optional {α : Type} (read : Value → Option α) : Option Value → Option (Option α)
  | none => some none
  | some null => some none
  | some v => (read v).map some

/-- A string. -/
def toString? : Value → Option String
  | string s => s
  | _ => none

/-- An integer that a store can keep. -/
def toStamp? : Value → Option Int
  | number n => n.toInt?.bind Stamp.fit?
  | _ => none

/-- An integer that is a density. -/
def toDensity? : Value → Option Nat
  | number n => do
    match ← n.toInt? with
    | .ofNat d => if d ≤ Density.greatest then some d else none
    | .negSucc _ => none
  | _ => none

/-- The items of an array. -/
def toList? {α : Type} (read : Value → Option α) : Value → Option (List α)
  | array items => items.mapM read
  | _ => none

/-- A name out of a list: as a string, or as an object that has it as its only name, with null. -/
def toName? : Value → Option String
  | string s => s
  | object [(some s, null)] => some s
  | _ => none

/-- A name out of a list in a value that was kept before it is read: there the object may also have
the empty object in the place of null. -/
def toKeptName? : Value → Option String
  | object [(some s, object [])] => some s
  | v => v.toName?

/-- A string with a value. -/
def str (s : String) : Value := string (some s)

/-- An integer. -/
def int (n : Int) : Value := number (.ofInt n)

/-- A natural number. -/
def nat (n : Nat) : Value := number (.ofNat n)

/-- An object with these members. -/
def record (members : List (String × Value)) : Value := object (members.map fun m => (some m.1, m.2))

end Footage.Json.Value
