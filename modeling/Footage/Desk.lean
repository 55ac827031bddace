import Footage.Failure
import Footage.Store.Backend

/-!
# Work on a store

Requests are worked on at a desk: a store and a clock. A clock tells the time and then moves on by a
fixed step, so how often it was read shows. A request that fails leaves the desk as it then is.
-/

namespace Footage

/-- A clock that shows `now` and moves on by `step` when it is read. -/
structure Clock where
  now : Int
  step : Int := 0
  deriving DecidableEq, Repr

namespace Clock

/-- The clock after a reading. -/
def advance (c : Clock) : Clock := { c with now := c.now + c.step }

end Clock

/-- A store and a clock. -/
structure Desk (σ : Type) where
  store : σ
  clock : Clock
  deriving DecidableEq, Repr

/-- The work on one request. -/
abbrev DeskTask (σ : Type) := Task (Desk σ) Failure

namespace Desk

variable {σ α : Type}

/-- A step on the store. -/
def onStore (task : StoreTask σ α) : DeskTask σ α := fun desk =>
  match task desk.store with
  | (.ok a, store) => (.ok a, { desk with store })
  | (.error e, store) => (.error (.store e), { desk with store })

/-- A reading of the clock. -/
def readClock : DeskTask σ Int := fun desk =>
  (.ok desk.clock.now, { desk with clock := desk.clock.advance })

/-- The reads within which a range read comes to its end: the first, one more for each position at
which it can be resumed, and those that do not get any further. -/
def readsOf (b : Backend σ) (q : RangeRead) : DeskTask σ Nat := fun desk =>
  (.ok (q.positions + b.idle desk.store + 1), desk)

/-- A check that may refuse the request. -/
def check {ε : Type} (wrap : ε → Failure) (r : Except ε α) : DeskTask σ α :=
  match r with
  | .ok a => pure a
  | .error e => throw (wrap e)

end Desk

end Footage
