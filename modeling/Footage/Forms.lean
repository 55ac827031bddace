import Footage.Fragment
import Footage.Json.Fields
import Footage.Json.Printer
import Footage.Period
import Footage.Store.Item

/-!
# The JSON forms of the records

Each record is written as an object with fixed field names and read from an object or an array with
these fields (`Json.Value.fields?`). An event has the fields of its update and a field `kind` before
them. Events are read whole, and kept until their kind is known: even the fields that are not asked
for have to be sound, and nest no deeper than `Event.maxDepth`.
-/

namespace Footage

open Json Json.Value

namespace Granularity

def toValue (g : Granularity) : Value := str g.name

def ofValue? (v : Value) : Option Granularity := v.toName?.bind ofName?

end Granularity

namespace Location

def toValue (l : Location) : Value := str l.name

def ofValue? (v : Value) : Option Location := v.toName?.bind ofName?

end Location

namespace Update

def fieldNames : List String :=
  ["deviceId", "timeIncrementUnit", "bucketStartTime", "durationMillis", "location"]

def members (u : Update) : List (String × Value) :=
  [("deviceId", str u.device), ("timeIncrementUnit", u.granularity.toValue),
    ("bucketStartTime", int u.bucketStart), ("durationMillis", nat u.duration),
    ("location", u.location.toValue)]

def toValue (u : Update) : Value := record u.members

/-- An update from the values of its fields, with a reader of the names that are out of a list. -/
def ofFields? (name? : Value → Option String) : List (Option Value) → Option Update
  | [device, granularity, start, duration, location] => do
    return {
      device := ← required toString? device
      granularity := ← required (fun v => (name? v).bind Granularity.ofName?) granularity
      bucketStart := ← required toStamp? start
      duration := ← required toDensity? duration
      location := ← required (fun v => (name? v).bind Location.ofName?) location }
  | _ => none

def ofValue? (v : Value) : Option Update := do ofFields? toName? (← v.fields? fieldNames)

end Update

namespace Event

/-- The word for the kind of an event. -/
def kind : Event → String
  | increment _ => "increment"
  | catchup _ => "catchup"

/-- An event of a kind. -/
def ofKind? (kind : String) (u : Update) : Option Event :=
  if kind = "increment" then some (increment u)
  else if kind = "catchup" then some (catchup u)
  else none

def fieldNames : List String := "kind" :: Update.fieldNames

def toValue (e : Event) : Value := record (("kind", str e.kind) :: e.update.members)

/-- The most arrays and objects inside one another in the text of an event. -/
def maxDepth : Nat := 127

def ofValue? (v : Value) : Option Event := do
  match ← v.fields? fieldNames with
  | kind :: fields => ofKind? (← required toString? kind) (← Update.ofFields? toKeptName? fields)
  | [] => none

/-- The event that a text writes. -/
def parse? (s : String) : Option Event := do
  ofValue? (← ofSoundSymbols? maxDepth (Text.symbols s))

end Event

namespace Bucket

def fieldNames : List String :=
  ["deviceId", "unit", "bucketStart", "cloudDensityMillis", "deviceDensityMillis", "createdAt",
    "lastUpdated"]

def toValue (b : Bucket) : Value :=
  record [("deviceId", str b.device), ("unit", b.granularity.toValue), ("bucketStart", int b.start),
    ("cloudDensityMillis", nat b.cloudDensity), ("deviceDensityMillis", nat b.deviceDensity),
    ("createdAt", int b.createdAt), ("lastUpdated", int b.lastUpdated)]

def ofValue? (v : Value) : Option Bucket := do
  match ← v.fields? fieldNames with
  | [device, granularity, start, cloud, inDevice, created, updated] =>
    return {
      device := ← required toString? device
      granularity := ← required Granularity.ofValue? granularity
      start := ← required toStamp? start
      cloudDensity := ← required toDensity? cloud
      deviceDensity := ← required toDensity? inDevice
      createdAt := ← required toStamp? created
      lastUpdated := ← required toStamp? updated }
  | _ => none

end Bucket

namespace Fragment

def fieldNames : List String :=
  ["deviceId", "timestamp", "durationMillis", "location", "createdAt", "lastUpdated",
    "expirationEpochSeconds"]

def toValue (f : Fragment) : Value :=
  record [("deviceId", str f.device), ("timestamp", int f.timestamp),
    ("durationMillis", nat f.duration), ("location", f.location.toValue),
    ("createdAt", int f.createdAt), ("lastUpdated", int f.lastUpdated),
    ("expirationEpochSeconds", int f.expires)]

def ofValue? (v : Value) : Option Fragment := do
  match ← v.fields? fieldNames with
  | [device, timestamp, duration, location, created, updated, expires] =>
    return {
      device := ← required toString? device
      timestamp := ← required toStamp? timestamp
      duration := ← required toDensity? duration
      location := ← required Location.ofValue? location
      createdAt := ← required toStamp? created
      lastUpdated := ← required toStamp? updated
      expires := ← required toStamp? expires }
  | _ => none

end Fragment

namespace Period

def fieldNames : List String :=
  ["periodStart", "densityMillis", "cloudDensityMillis", "deviceDensityMillis"]

def toValue (p : Period) : Value :=
  record [("periodStart", int p.start), ("densityMillis", nat p.density),
    ("cloudDensityMillis", nat p.cloudDensity), ("deviceDensityMillis", nat p.deviceDensity)]

def ofValue? (v : Value) : Option Period := do
  match ← v.fields? fieldNames with
  | [start, density, cloud, inDevice] =>
    return {
      start := ← required toStamp? start
      density := ← required toDensity? density
      cloudDensity := ← required toDensity? cloud
      deviceDensity := ← required toDensity? inDevice }
  | _ => none

end Period

/-- The value of a token that a page may have. -/
def tokenValue : Option String → Value
  | some s => str s
  | none => null

namespace PeriodPage

def fieldNames : List String := ["results", "nextToken"]

def toValue (p : PeriodPage) : Value :=
  record [("results", array (p.results.map Period.toValue)), ("nextToken", tokenValue p.token)]

def ofValue? (v : Value) : Option PeriodPage := do
  match ← v.fields? fieldNames with
  | [results, token] =>
    return {
      results := ← required (toList? Period.ofValue?) results
      token := ← optional toString? token }
  | _ => none

end PeriodPage

namespace FragmentPage

def fieldNames : List String := ["records", "nextToken"]

def toValue (p : FragmentPage) : Value :=
  record [("records", array (p.records.map Fragment.toValue)), ("nextToken", tokenValue p.token)]

def ofValue? (v : Value) : Option FragmentPage := do
  match ← v.fields? fieldNames with
  | [records, token] =>
    return {
      records := ← required (toList? Fragment.ofValue?) records
      token := ← optional toString? token }
  | _ => none

end FragmentPage

namespace Key

/-- The fields of the body of a token. -/
def fieldNames : List String := ["pk", "sk"]

def toValue (k : Key) : Value := record [("pk", str k.partition), ("sk", int k.sort)]

def ofValue? (v : Value) : Option Key := do
  match ← v.fields? fieldNames with
  | [partition, sort] =>
    return { partition := ← required toString? partition, sort := ← required toStamp? sort }
  | _ => none

end Key

end Footage
