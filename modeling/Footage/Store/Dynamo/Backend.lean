import Footage.Store.Dynamo.Reply
import Footage.Store.Dynamo.Request

/-!
# The store in a remote table

Each step on the store is one request to a service, and nothing is tried again. A range read whose
range is empty is answered without one. The service is behind a `Link`, which carries a request and
brings the reply, if there is one.
-/

namespace Footage.Dynamo

/-- A way to reach the service. -/
structure Link (τ : Type) where
  send : Request → StateM τ Reply
  /-- The most queries that the service still answers without getting any further in the range. -/
  idle : τ → Nat

variable {τ : Type}

/-- A request, and its reply as a reader understands it. -/
def call {α : Type} (link : Link τ) (r : Request) (read : Reply → Except StoreError α) :
    StoreTask τ α := fun t =>
  let (reply, t) := link.send r t
  (read reply, t)

/-- A remote table as a store. -/
def backend (link : Link τ) (table : String) : Backend τ where
  get k := call link (.ofKey table k) Reply.readItem
  write w := call link (.ofWrite table w) (Reply.readWrite w)
  read q :=
    if q.upper < q.least then pure {}
    else call link (.ofRead table q) Reply.readPage
  idle := link.idle

end Footage.Dynamo
