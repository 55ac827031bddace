import Footage.Stamp

/-!
# Period boundaries

The periods of a listing start at `origin + k * increment`. The boundary after a time is computed in
steps of which each has to fit a stored number: the distance from the origin, the count of
increments, their total length, and the boundary.
-/

namespace Footage

/-- The first time after `t` that lies a whole number of increments from `origin`; none if the
increment is not positive or a step of the computation does not fit a stored number. -/
def boundaryAfter? (origin increment t : Int) : Option Int :=
  if increment ≤ 0 then none else do
    let distance ← Stamp.fit? (t - origin)
    let count ← Stamp.fit? (distance / increment + 1)
    let length ← Stamp.fit? (count * increment)
    Stamp.fit? (origin + length)

end Footage
