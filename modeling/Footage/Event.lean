import Footage.Granularity
import Footage.Location

/-!
# Density events

Producers report recorded video as events. Each event names one bucket and says that an amount of
video was newly seen at a location, or has moved there from the other one.
-/

namespace Footage

/-- An amount of video at a location, for one bucket of one device. -/
structure Update where
  device : String
  granularity : Granularity
  bucketStart : Int
  duration : Nat
  location : Location
  deriving DecidableEq, Repr

/-- What happened to the video of an update. -/
inductive Event
  /-- It was newly observed at the location. -/
  | increment (update : Update)
  /-- It was counted at the other location before and has moved to this one. -/
  | catchup (update : Update)
  deriving DecidableEq, Repr

namespace Event

def update : Event → Update
  | increment u => u
  | catchup u => u

def moves : Event → Bool
  | increment _ => false
  | catchup _ => true

/-- The event of a producer that marks a catchup by a flag. -/
def ofFlag (u : Update) (caughtUp : Bool) : Event := if caughtUp then catchup u else increment u

end Event

end Footage
