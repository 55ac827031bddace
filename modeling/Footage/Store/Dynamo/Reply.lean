import Footage.Store.Backend
import Footage.Store.Dynamo.Wire

/-!
# Replies of a remote table

A reply has a status and a body, which is empty or a JSON object. A body is read for what was asked;
members of other names do not matter, and a member that is null counts as missing.
-/

namespace Footage.Dynamo

open Json Json.Value

/-- What came back for a request. -/
inductive Reply
  /-- The request did not reach the service. -/
  | unreachable
  | answer (status : Nat) (body : List UInt8)
  deriving DecidableEq, Repr

/-- The members of an object of a reply. -/
abbrev Members := List (Option String × Value)

namespace Members

/-- The members of a body. -/
def ofBody? (body : List UInt8) : Option Members :=
  if body.isEmpty then some []
  else match ofSymbols? (Text.symbolsOfBytes body) with
    | some (object members) => some members
    | _ => none

/-- The last member of a name, unless it is null. -/
def member? (members : Members) (name : String) : Option Value :=
  match members.reverse.find? (·.1 = some name) with
  | some (_, null) => none
  | some (_, v) => some v
  | none => none

/-- The items of a page and the key to resume after, as they travel. -/
def page? (members : Members) : Option (List WireItem × Option WireItem) := do
  let items ← match members.member? "Items" with
    | none => some []
    | some (array vs) => (vs.filter fun v => v matches .null |> not).mapM WireItem.ofValue?
    | some _ => none
  let next ← (members.member? "LastEvaluatedKey").mapM WireItem.ofValue?
  return (items, next)

end Members

namespace Reply

/-- The type of the error by which the service refuses a guarded write. -/
def conditionFailedType : String := "ConditionalCheckFailedException"

/-- The body is the error that a condition does not hold; its type may have more in front of a `#`. -/
def isConditionFailed (body : List UInt8) : Bool :=
  match (Members.ofBody? body).bind (·.member? "__type") with
  | some (string (some type)) =>
    type = conditionFailedType || ("#" ++ conditionFailedType).toList.isSuffixOf type.toList
  | _ => false

/-- The members of a successful reply to a call. -/
def success (call : RemoteCall) : Reply → Except RemoteFault Members
  | unreachable => .error (.undelivered call)
  | answer status body =>
    if status = 200 then
      match Members.ofBody? body with
      | some members => .ok members
      | none => .error (.refused call)
    else .error (.refused call)

/-- The item of a reply to a request for one. -/
def readItem (reply : Reply) : Except StoreError (Option Item) :=
  match reply.success .get with
  | .error fault => .error (.remote fault)
  | .ok members =>
    match members.member? "Item" with
    | none => .ok none
    | some v =>
      match WireItem.ofValue? v with
      | some m => (toItem m).map some
      | none => .error (.remote (.refused .get))

/-- The outcome of a write by the reply to it. -/
def readWrite (w : Write) (reply : Reply) : Except StoreError Unit :=
  match w.guard with
  | none => ((reply.success .put).map fun _ => ()).mapError .remote
  | some _ =>
    match reply with
    | answer status body =>
      if status ≠ 200 ∧ isConditionFailed body then .error (.guardFailed w.item.key)
      else ((reply.success .guardedPut).map fun _ => ()).mapError .remote
    | unreachable => .error (.remote (.undelivered .guardedPut))

/-- The page of a reply to a request for one. -/
def readPage (reply : Reply) : Except StoreError RangePage := do
  let members ← (reply.success .query).mapError .remote
  match members.page? with
  | some (items, next) =>
    let items ← items.mapM toItem
    let next ← (next.mapM toKey).mapError .remote
    return { items, next }
  | none => throw (.remote (.refused .query))

end Reply

end Footage.Dynamo
