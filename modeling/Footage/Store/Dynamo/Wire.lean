import Footage.Json.Fields
import Footage.Store.Error

/-!
# Items of a remote table

A remote table shows an item as one map of names to tagged values: the partition under `pk` as a
string, the sort number under `sk` as a number, and every attribute under its name. Numbers travel as
decimal text. What comes back is first taken apart by its tags and then read as an item, which may
fail for the key or for an attribute.
-/

namespace Footage.Dynamo

open Json

def partitionName : String := "pk"
def sortName : String := "sk"

/-- A value of an item as it travels; a value that is neither a string nor a number is not told. -/
inductive Wire
  | text (s : String)
  | number (digits : String)
  | other
  deriving DecidableEq, Repr

/-- An item as it travels. -/
abbrev WireItem := OrderedMap String Wire

namespace Wire

def ofAttribute : Attribute → Wire
  | .number n => number (String.ofList (Decimal.ofInt n))
  | .text s => text s

def toAttribute? : Wire → Option Attribute
  | text s => some (.text s)
  | number digits => (Decimal.read digits.toList).toOption.map .number
  | other => none

def toValue : Wire → Value
  | text s => .record [("S", .str s)]
  | number digits => .record [("N", .str digits)]
  | other => .record [("NULL", .truth true)]

/-- A value of one tag; strings and numbers have to be written as strings. -/
def ofValue? : Value → Option Wire
  | .object [(some "S", v)] => v.toString?.map text
  | .object [(some "N", v)] => v.toString?.map number
  | .object [(some _, _)] => some other
  | _ => none

end Wire

/-! ## Sending -/

/-- A key as it travels. -/
def ofKey (k : Key) : WireItem :=
  OrderedMap.empty.insert partitionName (.text k.partition)
    |>.insert sortName (.ofAttribute (.number k.sort))

/-- An item as it travels. An attribute with the name of a part of the key takes its place. -/
def ofItem (i : Item) : WireItem :=
  i.attributes.entries.foldl (fun m e => m.insert e.1 (.ofAttribute e.2)) (ofKey i.key)

/-- The JSON form of a map. -/
def WireItem.toValue (m : WireItem) : Value :=
  .record (m.entries.map fun e => (e.1, e.2.toValue))

/-! ## Receiving -/

/-- The map that a JSON object writes. Null members are left out. -/
def WireItem.ofValue? : Value → Option WireItem
  | .object members => do
    let members ← members.mapM fun m => m.1.map (·, m.2)
    let entries ← (members.filter fun m => m.2 matches .null |> not).mapM
      fun m => (Wire.ofValue? m.2).map (m.1, ·)
    return .ofList entries
  | _ => none

/-- The key of a map. -/
def toKey (m : WireItem) : Except RemoteFault Key :=
  match m.get? partitionName with
  | some (.text partition) =>
    match m.get? sortName with
    | some (.number digits) =>
      match Decimal.read digits.toList with
      | .ok sort => .ok ⟨partition, sort⟩
      | .error fault => .error (.badSort digits fault)
    | _ => .error (.noSort partition)
  | _ => .error .noPartition

/-- The attributes that entries write, added to those of an item. -/
def addAttributes (i : Item) : List (String × Wire) → Except StoreError Item
  | [] => .ok i
  | (name, w) :: rest =>
    if name = partitionName ∨ name = sortName then addAttributes i rest
    else match w.toAttribute? with
      | some a => addAttributes (i.set name a) rest
      | none => .error (.item (.invalid i.key name))

/-- The item of a map. -/
def toItem (m : WireItem) : Except StoreError Item :=
  match toKey m with
  | .ok key => addAttributes (.bare key) m.entries
  | .error fault => .error (.remote fault)

end Footage.Dynamo
