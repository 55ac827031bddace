import Footage.Stamp

/-!
# Granularities

A rollup is kept per second, minute, hour or day. The buckets of a granularity all have the same
length and are aligned to the epoch: they start at the multiples of that length.
-/

namespace Footage

/-- The length of the buckets of a rollup. -/
inductive Granularity
  | seconds
  | minutes
  | hours
  | days
  deriving DecidableEq, Repr

namespace Granularity

/-- The granularities from fine to coarse. -/
def all : List Granularity := [seconds, minutes, hours, days]

/-- The name by which requests and stored keys call a granularity. -/
def name : Granularity → String
  | seconds => "SECONDS"
  | minutes => "MINUTES"
  | hours => "HOURS"
  | days => "DAYS"

/-- The length of one bucket in milliseconds. -/
def millis : Granularity → Int
  | seconds => 1000
  | minutes => 60000
  | hours => 3600000
  | days => 86400000

theorem millis_pos (g : Granularity) : 0 < g.millis := by cases g <;> decide

/-- The granularity of exactly this name. -/
def ofName? (s : String) : Option Granularity := all.find? (·.name == s)

/-- The granularity of this name, where small ASCII letters count as capitals. -/
def parse? (s : String) : Option Granularity :=
  all.find? fun g => g.name.toList == s.toList.map Char.toUpper

/-- Why a text names no granularity. -/
def unknownMessage (s : String) : String := "unknown time increment unit: " ++ s

/-- The start of the bucket that contains `t`. The bucket of the least stored number may start before
it, and then the difference wraps. -/
def floor (g : Granularity) (t : Int) : Int := Stamp.wrap (t - t % g.millis)

/-- Buckets start at the aligned times. -/
def Aligned (g : Granularity) (t : Int) : Prop := t % g.millis = 0

instance (g : Granularity) (t : Int) : Decidable (g.Aligned t) :=
  inferInstanceAs (Decidable (t % g.millis = 0))

/-- The floor of a time is the start of its bucket, or past the time where that start cannot be
stored. -/
theorem floor_exact (g : Granularity) {t : Int} (ht : Stamp.Fits t) :
    (Stamp.least ≤ t - t % g.millis →
      g.Aligned (g.floor t) ∧ g.floor t ≤ t ∧ t < g.floor t + g.millis) ∧
    (t - t % g.millis < Stamp.least → t < g.floor t) := by
  obtain ⟨hleast, hgreatest⟩ := ht
  have hl : Stamp.least = -9223372036854775808 := rfl
  have hnonneg := Int.emod_nonneg t (Int.ne_of_gt g.millis_pos)
  have hlt := Int.emod_lt_of_pos t g.millis_pos
  refine ⟨fun h => ?_, fun h => ?_⟩
  · have hfloor : g.floor t = t - t % g.millis := Stamp.wrap_of_fits ⟨h, by omega⟩
    rw [hfloor]
    exact ⟨by simp [Aligned, Int.sub_emod], by omega, by omega⟩
  · have hday : g.millis ≤ 86400000 := by cases g <;> decide
    have hfloor : g.floor t = t - t % g.millis + 18446744073709551616 := by
      unfold floor Stamp.wrap
      rw [← Int.add_bmod_right]
      exact Int.bmod_eq_of_le (by omega) (by omega)
    omega

end Granularity

end Footage
