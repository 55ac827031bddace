/-!
# Locations

A span of recorded video is on the device that recorded it or in the cloud.
-/

namespace Footage

/-- Where recorded video is. -/
inductive Location
  | device
  | cloud
  deriving DecidableEq, Repr

namespace Location

/-- The two locations. -/
def all : List Location := [device, cloud]

/-- The name by which requests and stored items call a location. -/
def name : Location → String
  | device => "DEVICE"
  | cloud => "CLOUD"

/-- The location of exactly this name. -/
def ofName? (s : String) : Option Location := all.find? (·.name == s)

/-- Why a text names no location. -/
def unknownMessage (s : String) : String := "unknown video location: " ++ s

/-- The location that video leaves when it arrives at this one. -/
def opposite : Location → Location
  | device => cloud
  | cloud => device

@[simp] theorem opposite_opposite (l : Location) : l.opposite.opposite = l := by cases l <;> rfl

theorem opposite_ne (l : Location) : l.opposite ≠ l := by cases l <;> decide

end Location

end Footage
