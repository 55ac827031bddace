import Footage.Bucket

/-!
# Periods

A listing shows the video of consecutive periods of one length. `Period.distribute` sums buckets, which
come in ascending order, into every period between two times, with or without video. The sums are
whole numbers without a limit: those of saved buckets fit 64 bits, and of other buckets nothing is said
where they do not.
-/

namespace Footage

/-- The video of one period. -/
structure Period where
  start : Int
  density : Nat
  cloudDensity : Nat
  deviceDensity : Nat
  deriving DecidableEq, Repr

namespace Period

/-- A period without video. -/
def empty (start : Int) : Period := ⟨start, 0, 0, 0⟩

/-- The period with the video of a bucket added. -/
def add (p : Period) (b : Bucket) : Period :=
  { p with
    density := p.density + b.total
    cloudDensity := p.cloudDensity + b.cloudDensity
    deviceDensity := p.deviceDensity + b.deviceDensity }

/-- The period that starts at `start` and ends before `stop`, and the buckets from `stop` on. Buckets
before the period are passed over. -/
def gather (start stop : Int) (buckets : List Bucket) : Period × List Bucket :=
  let inside := buckets.takeWhile (·.start < stop)
  ((inside.filter (start ≤ ·.start)).foldl add (empty start),
    buckets.dropWhile (·.start < stop))

theorem lt_later {t d : Int} (hd : 0 < d) (ht : t < Stamp.greatest) : t < Stamp.later t d := by
  unfold Stamp.later; omega

/-- The periods from `start` up to `stop`. The end of a period is at most the greatest stamp, so the
last period may be cut short there. -/
def distribute (increment start stop : Int) (buckets : List Bucket) : List Period :=
  if _h : start < stop ∧ 0 < increment ∧ start < Stamp.greatest then
    let next := Stamp.later start increment
    let (period, rest) := gather start next buckets
    period :: distribute increment next stop rest
  else []
  termination_by (stop - start).toNat
  decreasing_by
    have := lt_later _h.2.1 _h.2.2
    simp only [Stamp.later] at *
    omega

end Period

/-- A page of a listing of periods. -/
structure PeriodPage where
  results : List Period := []
  token : Option String := none
  deriving DecidableEq, Repr

end Footage
