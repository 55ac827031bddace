import Footage.Config.Settings
import Footage.Desk
import Footage.Fragment
import Footage.Token

/-!
# The archive of fragments

The records of a device's fragments are the items of one partition, each under its time. A report
that a fragment is in the cloud always counts; one that it is on the device is dropped when the
record says that it is in the cloud. That condition is checked together with the write, so it holds
whatever was read before.
-/

namespace Footage

namespace Fragment

/-- The partition of the fragments of a device. -/
def partition (device : String) : String := "raw#" ++ device

def durationName : String := "durationMillis"
def locationName : String := "location"
def createdName : String := "createdAt"
def updatedName : String := "lastUpdated"
def expiresName : String := "ttlEpochSeconds"

/-- The key of a record. -/
def key (f : Fragment) : Key := ⟨partition f.device, f.timestamp⟩

/-- The item that stores a record. -/
def toItem (f : Fragment) : Except RequestError Item :=
  if (f.duration : Int) ≤ Stamp.greatest then
    .ok ((((Item.bare f.key).set durationName (.number f.duration)
      |>.set locationName (.text f.location.name)).set createdName (.number f.createdAt)
      |>.set updatedName (.number f.lastUpdated)).set expiresName (.number f.expires))
  else .error (.durationTooLarge f.duration)

/-- The record that an item stores. -/
def ofItem (device : String) (i : Item) : Except AttributeError Fragment := do
  match Location.ofName? (← i.text locationName) with
  | some location =>
    let duration ← i.unsigned durationName
    let created ← i.number createdName
    let updated ← i.number updatedName
    let expires ← i.number expiresName
    return ⟨device, i.key.sort, duration, location, created, updated, expires⟩
  | none => throw (.invalid i.key locationName)

/-- The record already says this. -/
def Says (f : Fragment) (duration : Nat) (l : Location) : Prop :=
  f.duration = duration ∧ f.location = l

instance (f : Fragment) (duration : Nat) (l : Location) : Decidable (f.Says duration l) :=
  inferInstanceAs (Decidable (f.duration = duration ∧ f.location = l))

/-- The condition that the stored record does not say that the fragment is in the cloud. -/
def notInCloud : Condition := ⟨locationName, .text Location.cloud.name⟩

/-- The write that stores a record: one for the device is guarded, one for the cloud is not. -/
def toWrite (f : Fragment) : Except RequestError Write := do
  let item ← f.toItem
  return { item, guard := match f.location with | .cloud => none | .device => some notInCloud }

end Fragment

namespace Archive

open Desk

variable {σ : Type}

/-- The record of a fragment. -/
def load (b : Backend σ) (device : String) (timestamp : Int) : DeskTask σ (Option Fragment) := do
  match ← onStore (b.get ⟨Fragment.partition device, timestamp⟩) with
  | some item => return some (← check .unreadable (Fragment.ofItem device item))
  | none => return none

/-- A write whose guard may refuse it: that is no failure. -/
def attempt (b : Backend σ) (w : Write) : StoreTask σ Unit := fun s =>
  match w.guard, b.write w s with
  | some _, (.error (.guardFailed _), s') => (.ok (), s')
  | _, r => r

/-- The record to store after a report that arrives at the time `now`. -/
def revise (p : Paging) (device : String) (timestamp : Int) (duration : Nat) (l : Location)
    (old : Option Fragment) (now : Int) : Fragment :=
  ⟨device, timestamp, duration, l, (old.map (·.createdAt)).getD now, now,
    Fragment.expiry timestamp p.retentionDays⟩

/-- Record the length and the location of a fragment. Nothing is written if the record says so
already. -/
def save (b : Backend σ) (p : Paging) (device : String) (timestamp : Int) (duration : Nat)
    (l : Location) : DeskTask σ Unit := do
  let old ← load b device timestamp
  if old.any (·.Says duration l) then
    return ()
  else
    let now ← readClock
    let w ← check .request (revise p device timestamp duration l old now).toWrite
    onStore (attempt b w)

/-- The query for the fragments of a device between two times, both included. -/
def query (p : Paging) (device : String) (start stop : Int) (after : Option Key) : RangeRead :=
  { partition := Fragment.partition device, lower := start, upper := stop, after,
    limit := some p.fragmentLimit }

/-- One page of the records of a device between two times, both included. -/
def list (b : Backend σ) (p : Paging) (device : String) (start stop : Int)
    (token : Option String) : DeskTask σ FragmentPage := do
  if start ≤ stop then
    let after ← check .token (token.mapM (Token.decode (Fragment.partition device)))
    let page ← onStore (b.read (query p device start stop after))
    let records ← check .unreadable (page.items.mapM (Fragment.ofItem device))
    return { records, token := page.next.map Token.encode }
  else
    throw (.request (.reversedRange start stop))

end Archive

end Footage
