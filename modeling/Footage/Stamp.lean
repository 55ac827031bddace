/-!
# Stored numbers

Times are milliseconds since the epoch and are written as `Int`; densities are milliseconds of video
and are written as `Nat`. A store keeps a time in 64 bits with a sign and a bucket keeps a density in
64 bits without one. The few places where these limits show are named here: a result is given only
if it fits (`Stamp.fit?`), it stops at the limit (`Stamp.next`, `Stamp.later`, `Density.add`), or it
starts again at the other end (`Stamp.wrap`, `Count.wrap`).
-/

namespace Footage

namespace Stamp

/-- The earliest time that a store can keep. -/
def least : Int := -9223372036854775808

/-- The latest time that a store can keep. -/
def greatest : Int := 9223372036854775807

/-- The numbers that a store can keep. -/
def Fits (t : Int) : Prop := least ≤ t ∧ t ≤ greatest

instance : DecidablePred Fits := fun t => inferInstanceAs (Decidable (least ≤ t ∧ t ≤ greatest))

/-- The number itself, if a store can keep it. -/
def fit? (t : Int) : Option Int := if Fits t then some t else none

/-- The time `d` after `t`, at most the greatest. -/
def later (t d : Int) : Int := min (t + d) greatest

/-- The next time after `t`, at most the greatest. -/
def next (t : Int) : Int := later t 1

/-- The number as it is kept where nothing looks at its size: past either end it goes on at the
other. -/
def wrap (t : Int) : Int := t.bmod 18446744073709551616

theorem fit?_eq_some {t u : Int} : fit? t = some u ↔ Fits t ∧ t = u := by
  unfold fit?; split <;> simp_all

theorem fit?_eq_none {t : Int} : fit? t = none ↔ ¬ Fits t := by
  unfold fit?; split <;> simp_all

theorem wrap_of_fits {t : Int} (h : Fits t) : wrap t = t := by
  obtain ⟨hleast, hgreatest⟩ := h
  have hl : least = -9223372036854775808 := rfl
  have hg : greatest = 9223372036854775807 := rfl
  exact Int.bmod_eq_of_le (by omega) (by omega)

end Stamp

namespace Density

/-- The greatest density that a bucket can keep. -/
def greatest : Nat := 18446744073709551615

/-- The sum of two densities, at most the greatest. -/
def add (a b : Nat) : Nat := min (a + b) greatest

end Density

namespace Count

/-- The greatest count. -/
def greatest : Nat := 18446744073709551615

/-- The count as it is kept: after the greatest it starts again at zero. -/
def wrap (n : Nat) : Nat := n % (greatest + 1)

end Count

end Footage
