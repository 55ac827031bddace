import Footage.Store.Backend
import Footage.Store.Dynamo.Wire

/-!
# Requests to a remote table

A request names what the service is asked to do and has its details as a JSON object.
-/

namespace Footage.Dynamo

open Json Json.Value

/-- A request about a table. -/
inductive Request
  /-- Give the item under a key. -/
  | get (table : String) (key : WireItem)
  /-- Store an item; where a name and a value are given, only if the item that it would replace does
  not have that value under that name. -/
  | put (table : String) (item : WireItem) (guard : Option (String × Wire))
  /-- Give items of a partition between two sort numbers, both included. -/
  | query (table : String) (partition lower upper : Wire) (after : Option WireItem)
      (limit : Option Nat)
  deriving DecidableEq

namespace Request

/-- The request for the item under a key. -/
def ofKey (table : String) (k : Key) : Request := get table (Dynamo.ofKey k)

/-- The request for a write. -/
def ofWrite (table : String) (w : Write) : Request :=
  put table (ofItem w.item) (w.guard.map fun c => (c.name, .ofAttribute c.value))

/-- The greatest limit that a request can state. -/
def greatestLimit : Nat := 2147483647

/-- The request for a page of a range. The lower end is the one of the read; where it resumes is stated
on its own. -/
def ofRead (table : String) (q : RangeRead) : Request :=
  query table (.text q.partition) (.ofAttribute (.number q.lower)) (.ofAttribute (.number q.upper))
    (q.after.map Dynamo.ofKey) (q.limit.map fun n => min (max 1 n) greatestLimit)

/-! ## The written form -/

/-- The name of what the service is asked to do. -/
def target : Request → String
  | get .. => "GetItem"
  | put .. => "PutItem"
  | query .. => "Query"

/-- The members that guard a write. -/
def guardMembers (name : String) (value : Wire) : List (String × Value) :=
  [("ConditionExpression", str "attribute_not_exists(pk) OR #attr <> :val"),
    ("ExpressionAttributeNames", record [("#attr", str name)]),
    ("ExpressionAttributeValues", record [(":val", value.toValue)])]

/-- The details of a request. -/
def body : Request → Value
  | get table key =>
    record [("TableName", str table), ("Key", key.toValue), ("ConsistentRead", truth true)]
  | put table item guard =>
    record ([("TableName", str table), ("Item", item.toValue)] ++
      match guard with
      | some (name, value) => guardMembers name value
      | none => [])
  | query table partition lower upper after limit =>
    record ([("TableName", str table), ("ConsistentRead", truth true),
        ("KeyConditionExpression", str "pk = :pk AND sk BETWEEN :lo AND :hi"),
        ("ExpressionAttributeValues", record [(":pk", partition.toValue), (":lo", lower.toValue),
          (":hi", upper.toValue)])] ++
      (after.map fun k => ("ExclusiveStartKey", k.toValue)).toList ++
      (limit.map fun n => ("Limit", nat n)).toList)

end Request

end Footage.Dynamo
