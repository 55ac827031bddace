import Footage.Config.Settings
import Footage.Store.Memory

/-!
# Opening the stores

Fragments and buckets are kept in a store each. Only stores in memory can be opened here; those in a
remote table are opened with a link to the service.
-/

namespace Footage

/-- The stores of a program. -/
structure StorePair where
  fragments : Memory := {}
  buckets : Memory := {}
  deriving DecidableEq

/-- Why stores cannot be opened. -/
inductive OpenError
  | dynamoDisabled
  deriving DecidableEq, Repr

namespace OpenError

def message : OpenError → String
  | dynamoDisabled => "DynamoDB feature not enabled"

end OpenError

namespace StorePair

/-- New stores of the kind that is set. -/
def init (s : StoreSettings) : Except OpenError StorePair :=
  match s.kind with
  | .memory => .ok {}
  | .dynamo => .error .dynamoDisabled

end StorePair

end Footage
