import Footage.Location
import Footage.Stamp

/-!
# Fragments

A fragment is a short recording, told apart by its device and its time. A record says how long it is,
where it is and until when the record is kept.
-/

namespace Footage

/-- What is known of one fragment. -/
structure Fragment where
  device : String
  timestamp : Int
  duration : Nat
  location : Location
  createdAt : Int
  lastUpdated : Int
  /-- The second at which the record may be dropped. -/
  expires : Int
  deriving DecidableEq, Repr

namespace Fragment

/-- The second at which a record may be dropped that is kept for some days after its fragment. -/
def expiry (timestamp : Int) (retentionDays : Nat) : Int := timestamp / 1000 + retentionDays * 86400

end Fragment

/-- A page of a listing of fragments. -/
structure FragmentPage where
  records : List Fragment := []
  token : Option String := none
  deriving DecidableEq, Repr

end Footage
