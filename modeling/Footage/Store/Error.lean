import Footage.Store.Item
import Footage.Text.Decimal

/-!
# Failures of a store
-/

namespace Footage

/-- What a store that is out of service did not do. -/
inductive Outage
  | get (key : Key)
  | put (key : Key)
  | read (partition : String)
  /-- Every range read from the attempt of some number on. -/
  | readFrom (partition : String) (attempt : Nat)
  deriving DecidableEq, Repr

namespace Outage

def message : Outage → String
  | get key => "get " ++ key.text
  | put key => "put " ++ key.text
  | read partition => "query " ++ partition
  | readFrom partition attempt => "query " ++ partition ++ " (attempt " ++ toString attempt ++ ")"

end Outage

/-- The calls of a remote table. -/
inductive RemoteCall
  | get
  | put
  | guardedPut
  | query
  deriving DecidableEq, Repr

namespace RemoteCall

/-- The name of a call in messages. -/
def label : RemoteCall → String
  | get => "get_item"
  | put => "put_item"
  | guardedPut => "conditional put_item"
  | query => "query"

end RemoteCall

/-- Why a call of a remote table gave no usable answer. -/
inductive RemoteFault
  /-- The request did not reach the service. -/
  | undelivered (call : RemoteCall)
  /-- The service answered with an error or with something that is no answer. -/
  | refused (call : RemoteCall)
  | noPartition
  | noSort (partition : String)
  | badSort (text : String) (fault : Decimal.Fault)
  deriving DecidableEq, Repr

namespace RemoteFault

def message : RemoteFault → String
  | undelivered call => "DynamoDB " ++ call.label ++ " failed: dispatch failure"
  | refused call => "DynamoDB " ++ call.label ++ " failed: service error"
  | noPartition => "item without string 'pk'"
  | noSort partition => "item in '" ++ partition ++ "' without numeric 'sk'"
  | badSort text fault => "unparsable sort key '" ++ text ++ "': " ++ fault.message

end RemoteFault

/-- Why a store did not do what it was asked to. -/
inductive StoreError
  | guardFailed (key : Key)
  | item (e : AttributeError)
  | outage (o : Outage)
  | remote (fault : RemoteFault)
  /-- A range read was resumed again and again and did not get any further. -/
  | endless (partition : String)
  deriving DecidableEq, Repr

namespace StoreError

def message : StoreError → String
  | guardFailed key => "Conditional write rejected: " ++ key.text
  | item e => e.message
  | outage o => "Storage unavailable: " ++ o.message
  | remote fault => "Storage backend error: " ++ fault.message
  | endless partition => "Range read without end: " ++ partition

end StoreError

end Footage
