import Footage.Store.OrderedMap

/-!
# Stored items

A store keeps items under a partition and a sort number. Besides its key an item has attributes,
each a number or a text. Reading an attribute says whether it is missing or of the wrong kind.
-/

namespace Footage

open Std

/-- The address of an item: ordered by partition, then by sort number. -/
structure Key where
  partition : String
  sort : Int
  deriving DecidableEq, Repr

namespace Key

instance : Ord Key := ⟨compareLex (compareOn Key.partition) (compareOn Key.sort)⟩

instance : TransOrd Key :=
  inferInstanceAs (TransCmp (compareLex (compareOn Key.partition) (compareOn Key.sort)))

instance : LawfulEqOrd Key where
  eq_of_compare {a b} h := by
    have h : (compare a.partition b.partition).then (compare a.sort b.sort) = .eq := h
    obtain ⟨h₁, h₂⟩ := Ordering.then_eq_eq.1 h
    cases a; cases b
    simp_all

/-- The key as messages show it. -/
def text (k : Key) : String := k.partition ++ "/" ++ toString k.sort

end Key

/-- The value of an attribute. -/
inductive Attribute
  | number (n : Int)
  | text (s : String)
  deriving DecidableEq, Repr

/-- The attributes of an item, by name. -/
abbrev Attributes := OrderedMap String Attribute

/-- An item of a store. -/
structure Item where
  key : Key
  attributes : Attributes
  deriving DecidableEq

/-- Why an attribute of an item cannot be used. -/
inductive AttributeError
  | missing (key : Key) (name : String)
  | invalid (key : Key) (name : String)
  deriving DecidableEq, Repr

namespace AttributeError

def message : AttributeError → String
  | missing key name => "Missing attribute '" ++ name ++ "' on item " ++ key.text
  | invalid key name =>
    "Attribute '" ++ name ++ "' on item " ++ key.text ++ " has an unexpected type or value"

end AttributeError

namespace Item

/-- An item without attributes. -/
def bare (key : Key) : Item := ⟨key, .empty⟩

/-- The item with an attribute set. -/
def set (i : Item) (name : String) (value : Attribute) : Item :=
  { i with attributes := i.attributes.insert name value }

/-- The value of an attribute that has to be there. -/
def value (i : Item) (name : String) : Except AttributeError Attribute :=
  match i.attributes.get? name with
  | some a => .ok a
  | none => .error (.missing i.key name)

/-- A number. -/
def number (i : Item) (name : String) : Except AttributeError Int := do
  match ← i.value name with
  | .number n => return n
  | .text _ => throw (.invalid i.key name)

/-- A number that is not negative. -/
def unsigned (i : Item) (name : String) : Except AttributeError Nat := do
  match ← i.number name with
  | .ofNat n => return n
  | .negSucc _ => throw (.invalid i.key name)

/-- A text. -/
def text (i : Item) (name : String) : Except AttributeError String := do
  match ← i.value name with
  | .text s => return s
  | .number _ => throw (.invalid i.key name)

end Item

/-- What a guarded write asks of the item that it would replace. -/
structure Condition where
  name : String
  value : Attribute
  deriving DecidableEq, Repr

namespace Condition

/-- There is no item yet, or the attribute of the stored one is missing or another. -/
def Holds (c : Condition) (existing : Option Item) : Prop :=
  ∀ i ∈ existing, i.attributes.get? c.name ≠ some c.value

instance (c : Condition) : DecidablePred c.Holds := fun existing =>
  match existing with
  | none => isTrue (by simp [Holds])
  | some i =>
    decidable_of_iff (i.attributes.get? c.name ≠ some c.value) (by simp [Holds])

end Condition

end Footage
