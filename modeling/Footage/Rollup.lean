import Footage.Desk

/-!
# Rollups

The buckets of a device and a granularity are the items of one partition, each under its start. An
event is merged into its bucket by reading the bucket, applying the event and writing the result.
-/

namespace Footage

namespace Bucket

/-- The partition of the buckets of a device. -/
def partition (device : String) (g : Granularity) : String := device ++ "#" ++ g.name

def cloudName : String := "cloudDensityMillis"
def deviceName : String := "deviceDensityMillis"
def createdName : String := "createdAt"
def updatedName : String := "lastUpdated"

/-- The key of a bucket. -/
def key (b : Bucket) : Key := ⟨partition b.device b.granularity, b.start⟩

/-- A density as a stored number. -/
def storedDensity (d : Nat) : Except RequestError Attribute :=
  if (d : Int) ≤ Stamp.greatest then .ok (.number d) else .error (.densityTooLarge d)

/-- The item that stores a bucket. -/
def toItem (b : Bucket) : Except RequestError Item := do
  let cloud ← storedDensity b.cloudDensity
  let inDevice ← storedDensity b.deviceDensity
  return (((Item.bare b.key).set cloudName cloud).set deviceName inDevice
    |>.set createdName (.number b.createdAt)).set updatedName (.number b.lastUpdated)

/-- The bucket that an item stores. -/
def ofItem (device : String) (g : Granularity) (i : Item) : Except AttributeError Bucket := do
  let cloud ← i.unsigned cloudName
  let inDevice ← i.unsigned deviceName
  let created ← i.number createdName
  let updated ← i.number updatedName
  return ⟨device, g, i.key.sort, cloud, inDevice, created, updated⟩

end Bucket

namespace Rollup

open Desk

variable {σ : Type}

/-- The bucket of a device that starts at a time. -/
def load (b : Backend σ) (device : String) (g : Granularity) (start : Int) :
    DeskTask σ (Option Bucket) := do
  match ← onStore (b.get ⟨Bucket.partition device g, start⟩) with
  | some item => return some (← check .unreadable (Bucket.ofItem device g item))
  | none => return none

/-- Apply an event to its bucket; the answer is the bucket as stored. -/
def save (b : Backend σ) (e : Event) : DeskTask σ Bucket := do
  let u := e.update
  if u.granularity.Aligned u.bucketStart then
    let old ← load b u.device u.granularity u.bucketStart
    let now ← readClock
    let bucket ← check .consistency (Bucket.receive e old now)
    let item ← check .request bucket.toItem
    onStore (b.write { item })
    return bucket
  else
    throw (.request (.misaligned u.granularity u.bucketStart))

end Rollup

end Footage
