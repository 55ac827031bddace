import Footage.Event
import Footage.Stamp

/-!
# Buckets

A bucket sums up the video of one device in one stretch of time, per location. `Bucket.receive` applies
an event to it. The two densities of a merged bucket never add up to more than the bucket is long.
-/

namespace Footage

/-- The video of one device in one bucket, with the times of its first and its last change. -/
structure Bucket where
  device : String
  granularity : Granularity
  start : Int
  cloudDensity : Nat
  deviceDensity : Nat
  createdAt : Int
  lastUpdated : Int
  deriving DecidableEq, Repr

/-- Why an event does not agree with its bucket. -/
inductive BucketError
  /-- The bucket would hold more video than it is long. -/
  | overflow (granularity : Granularity) (start : Int) (total capacity : Nat)
  /-- There is less video at the other location than has moved away from it. -/
  | insufficient (source : Location) (start : Int) (available requested : Nat)
  deriving DecidableEq, Repr

namespace BucketError

def message : BucketError → String
  | overflow g start total capacity =>
    "Bucket overflow: " ++ g.name ++ " bucket at " ++ toString start ++ " would hold " ++
      toString total ++ "ms, capacity is " ++ toString capacity ++ "ms"
  | insufficient source start available requested =>
    "Catchup at " ++ toString start ++ " needs " ++ toString requested ++ "ms of " ++ source.name ++
      " density, only " ++ toString available ++ "ms recorded"

end BucketError

namespace Bucket

/-- A bucket without video. -/
def empty (device : String) (g : Granularity) (start now : Int) : Bucket :=
  ⟨device, g, start, 0, 0, now, now⟩

/-- The video at a location. -/
def density (b : Bucket) : Location → Nat
  | .device => b.deviceDensity
  | .cloud => b.cloudDensity

/-- All the video of the bucket. -/
def total (b : Bucket) : Nat := b.cloudDensity + b.deviceDensity

/-- The bucket with the video at a location replaced. -/
def withDensity (b : Bucket) (l : Location) (d : Nat) : Bucket :=
  match l with
  | .device => { b with deviceDensity := d }
  | .cloud => { b with cloudDensity := d }

/-- The bucket with more video at a location. -/
def deposit (b : Bucket) (l : Location) (d : Nat) : Bucket :=
  b.withDensity l (Density.add (b.density l) d)

/-- As much video as the bucket is long. -/
def capacity (b : Bucket) : Nat := b.granularity.millis.toNat

/-- The bucket itself, unless it holds more video than it is long. -/
def withinCapacity (b : Bucket) : Except BucketError Bucket :=
  let total := Density.add b.cloudDensity b.deviceDensity
  if b.capacity < total then .error (.overflow b.granularity b.start total b.capacity) else .ok b

/-- The bucket after an event, checked but not yet stamped. The first event of a bucket adds its
video whatever its kind; a later catchup needs the video at the other location. -/
def apply (u : Update) : (moves : Bool) → Bucket → Except BucketError Bucket
  | false, b => (b.deposit u.location u.duration).withinCapacity
  | true, b =>
    let source := u.location.opposite
    let available := b.density source
    if available < u.duration then
      .error (.insufficient source u.bucketStart available u.duration)
    else
      ((b.withDensity source (available - u.duration)).deposit u.location u.duration).withinCapacity

/-- The bucket to store after an event that arrives at the time `now`. -/
def receive (e : Event) (old : Option Bucket) (now : Int) : Except BucketError Bucket :=
  let u := e.update
  match old with
  | none => (withDensity (empty u.device u.granularity u.bucketStart now) u.location u.duration).withinCapacity
  | some b => return { ← b.apply u e.moves with lastUpdated := now }

end Bucket

end Footage
