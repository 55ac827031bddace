import Mathlib.Order.Bounds.Defs
import Footage.Boundary

/-!
# The boundary after a time

`nextBoundary` is the boundary in whole numbers: the least one after a time (`isLeast_nextBoundary`) and
the only one within an increment after it. Where `boundaryAfter?` gives an answer it is that one. It gives
one exactly if a store can keep the boundary and its distance from the origin and that of the time
(`boundaryAfter?_eq_some_iff`), so the last two are asked for although they are no part of the answer.
-/

namespace Footage

/-- The first time after `t` that lies a whole number of increments from `origin`. -/
def nextBoundary (origin increment t : Int) : Int :=
  origin + ((t - origin) / increment + 1) * increment

section

variable {origin increment t u b : Int}

theorem lt_nextBoundary (hi : 0 < increment) : t < nextBoundary origin increment t := by
  have hm := Int.emod_lt_of_pos (t - origin) hi
  have hd := Int.mul_ediv_add_emod (t - origin) increment
  unfold nextBoundary
  rw [Int.add_mul, Int.one_mul, Int.mul_comm]
  omega

theorem nextBoundary_le (hi : 0 < increment) : nextBoundary origin increment t ≤ t + increment := by
  have hm := Int.emod_nonneg (t - origin) (Int.ne_of_gt hi)
  have hd := Int.mul_ediv_add_emod (t - origin) increment
  unfold nextBoundary
  rw [Int.add_mul, Int.one_mul, Int.mul_comm]
  omega

theorem nextBoundary_sub :
    nextBoundary origin increment t - origin = ((t - origin) / increment + 1) * increment := by
  unfold nextBoundary
  omega

theorem dvd_nextBoundary_sub : increment ∣ nextBoundary origin increment t - origin :=
  ⟨_, nextBoundary_sub.trans (Int.mul_comm _ _)⟩

/-- There is only one boundary within an increment after a time. -/
theorem eq_nextBoundary (hi : 0 < increment) (hd : increment ∣ b - origin) (ht : t < b)
    (hb : b ≤ t + increment) : b = nextBoundary origin increment t := by
  have hlt : t < nextBoundary origin increment t := lt_nextBoundary hi
  have hle : nextBoundary origin increment t ≤ t + increment := nextBoundary_le hi
  have hn : increment ∣ nextBoundary origin increment t - origin := dvd_nextBoundary_sub
  have hdvd : increment ∣ b - nextBoundary origin increment t := by
    rw [show b - nextBoundary origin increment t =
      b - origin - (nextBoundary origin increment t - origin) by omega]
    exact Int.dvd_sub hd hn
  have hz := Int.eq_zero_of_dvd_of_natAbs_lt_natAbs hdvd (by omega)
  omega

/-- The times a number of increments after the origin. -/
theorem exists_boundary_iff (hi : 0 < increment) :
    (∃ k : Nat, t = origin + k * increment) ↔ origin ≤ t ∧ increment ∣ t - origin := by
  constructor
  · rintro ⟨k, rfl⟩
    have : 0 ≤ (k : Int) * increment := Int.mul_nonneg (by omega) (by omega)
    exact ⟨by omega, k, by rw [Int.mul_comm]; omega⟩
  · rintro ⟨hle, k, hk⟩
    have hk0 : 0 ≤ k := by
      refine Int.le_of_mul_le_mul_left (a := increment) ?_ hi
      omega
    exact ⟨k.toNat, by rw [Int.toNat_of_nonneg hk0, Int.mul_comm]; omega⟩

theorem nextBoundary_mono (hi : 0 < increment) (h : t ≤ u) :
    nextBoundary origin increment t ≤ nextBoundary origin increment u := by
  have := Int.ediv_le_ediv hi (show t - origin ≤ u - origin by omega)
  unfold nextBoundary
  have := Int.mul_le_mul_of_nonneg_right (Int.add_le_add_right this 1) (Int.le_of_lt hi)
  omega

/-- No boundary after a time comes before the next one, on either side of the origin. -/
theorem isLeast_nextBoundary (hi : 0 < increment) :
    IsLeast {x | t < x ∧ ∃ k : Int, x = origin + k * increment} (nextBoundary origin increment t) := by
  refine ⟨⟨lt_nextBoundary hi, _, rfl⟩, ?_⟩
  rintro _ ⟨hlt, k, rfl⟩
  have hk : (t - origin) / increment < k := Int.ediv_lt_of_lt_mul hi (by omega)
  have := Int.mul_le_mul_of_nonneg_right (Int.add_one_le_of_lt hk) (Int.le_of_lt hi)
  unfold nextBoundary
  omega

/-- The count of increments up to the boundary is a stored number if the two distances are. -/
theorem fits_count (hi : 0 < increment) (ht : Stamp.Fits (t - origin))
    (hb : Stamp.Fits (nextBoundary origin increment t - origin)) :
    Stamp.Fits ((t - origin) / increment + 1) := by
  have hleast : Stamp.least ≤ 0 ∧ 1 ≤ Stamp.greatest := by decide
  have hle := ht.1
  have hge := hb.2
  rw [nextBoundary_sub] at hge
  by_cases hq : 0 ≤ (t - origin) / increment
  · have hcount := Int.mul_le_mul_of_nonneg_left (show 1 ≤ increment by omega)
      (show 0 ≤ (t - origin) / increment + 1 by omega)
    rw [Int.mul_one] at hcount
    exact ⟨by omega, by omega⟩
  · -- before the origin there are no more increments than there are milliseconds
    have hneg : t - origin ≤ 0 := Int.not_lt.1 fun h => hq (Int.ediv_nonneg (by omega) (by omega))
    have hquotient : t - origin ≤ (t - origin) / increment := by
      refine Int.le_ediv_of_mul_le hi ?_
      have := Int.mul_le_mul_of_nonpos_left hneg (show 1 ≤ increment by omega)
      omega
    exact ⟨by omega, by omega⟩

/-- The boundary is found exactly if a store can keep it and the distances from the origin to the time and to
the boundary. -/
theorem boundaryAfter?_eq_some_iff : boundaryAfter? origin increment t = some b ↔
    0 < increment ∧ b = nextBoundary origin increment t ∧
      Stamp.Fits b ∧ Stamp.Fits (t - origin) ∧ Stamp.Fits (b - origin) := by
  unfold boundaryAfter?
  by_cases hi : increment ≤ 0
  · rw [if_pos hi]
    exact ⟨fun h => absurd h (by simp), fun h => absurd h.1 (by omega)⟩
  rw [if_neg hi]
  constructor
  · intro h
    obtain ⟨d, hd, h⟩ := Option.bind_eq_some_iff.1 h
    obtain ⟨c, hc, h⟩ := Option.bind_eq_some_iff.1 h
    obtain ⟨l, hl, h⟩ := Option.bind_eq_some_iff.1 h
    obtain ⟨hdistance, rfl⟩ := Stamp.fit?_eq_some.1 hd
    obtain ⟨-, rfl⟩ := Stamp.fit?_eq_some.1 hc
    obtain ⟨hlengthFits, rfl⟩ := Stamp.fit?_eq_some.1 hl
    obtain ⟨hfits, rfl⟩ := Stamp.fit?_eq_some.1 h
    refine ⟨by omega, rfl, hfits, hdistance, ?_⟩
    show Stamp.Fits (nextBoundary origin increment t - origin)
    rwa [nextBoundary_sub]
  · rintro ⟨-, rfl, hfits, hdistance, hlengthFits⟩
    have hsum : origin + (nextBoundary origin increment t - origin) = nextBoundary origin increment t := by
      omega
    refine Option.bind_eq_some_iff.2 ⟨_, Stamp.fit?_eq_some.2 ⟨hdistance, rfl⟩, ?_⟩
    refine Option.bind_eq_some_iff.2
      ⟨_, Stamp.fit?_eq_some.2 ⟨fits_count (by omega) hdistance hlengthFits, rfl⟩, ?_⟩
    refine Option.bind_eq_some_iff.2
      ⟨_, Stamp.fit?_eq_some.2 ⟨nextBoundary_sub ▸ hlengthFits, nextBoundary_sub.symm⟩, ?_⟩
    exact Stamp.fit?_eq_some.2 ⟨by rwa [hsum], hsum⟩

theorem boundaryAfter?_eq_some (h : boundaryAfter? origin increment t = some b) :
    0 < increment ∧ b = nextBoundary origin increment t ∧ Stamp.Fits b := by
  obtain ⟨hi, hb, hfits, -⟩ := boundaryAfter?_eq_some_iff.1 h
  exact ⟨hi, hb, hfits⟩

/-- A boundary that is found is no further from the origin than a stored number. -/
theorem boundaryAfter?_sub_le (h : boundaryAfter? origin increment t = some b) :
    b - origin ≤ Stamp.greatest := by
  obtain ⟨-, -, -, -, hlength⟩ := boundaryAfter?_eq_some_iff.1 h
  exact hlength.2

/-- A boundary that a stored number can reach from the origin is found. -/
theorem boundaryAfter?_of_fits (hi : 0 < increment) (ho : origin ≤ t)
    (hd : nextBoundary origin increment t - origin ≤ Stamp.greatest)
    (hf : Stamp.Fits (nextBoundary origin increment t)) :
    boundaryAfter? origin increment t = some (nextBoundary origin increment t) := by
  have hlt : t < nextBoundary origin increment t := lt_nextBoundary hi
  have hleast : Stamp.least ≤ 0 := by decide
  exact boundaryAfter?_eq_some_iff.2 ⟨hi, rfl, hf, ⟨by omega, by omega⟩, by omega, hd⟩

/-- **Which boundaries are found.** A least boundary always exists, but it is missed where its distance from the
origin, or that of the time, is no stored number. -/
theorem boundaryAfter?_exact (origin increment t : Int) :
    if 0 < increment then
      ∃ b, IsLeast {x | t < x ∧ ∃ k : Int, x = origin + k * increment} b ∧
        boundaryAfter? origin increment t =
          if Stamp.Fits b ∧ Stamp.Fits (t - origin) ∧ Stamp.Fits (b - origin) then some b else none
    else boundaryAfter? origin increment t = none := by
  by_cases hi : 0 < increment
  · rw [if_pos hi]
    refine ⟨nextBoundary origin increment t, isLeast_nextBoundary hi, ?_⟩
    split
    next hfits => exact boundaryAfter?_eq_some_iff.2 ⟨hi, rfl, hfits⟩
    next hnot =>
      rw [Option.eq_none_iff_forall_ne_some]
      intro b hb
      obtain ⟨-, rfl, hfits⟩ := boundaryAfter?_eq_some_iff.1 hb
      exact hnot hfits
  · rw [if_neg hi]
    exact if_pos (Int.not_lt.1 hi)

/-- From the least stored number the boundary after 5 is 12, which is not found: 5 is too far from the origin. -/
theorem boundary_missed : boundaryAfter? Stamp.least 10 5 = none ∧
    IsLeast {x : Int | 5 < x ∧ ∃ k : Int, x = Stamp.least + k * 10} 12 ∧ Stamp.Fits 12 := by
  have hnext : nextBoundary Stamp.least 10 5 = 12 := by decide
  exact ⟨by decide, hnext ▸ isLeast_nextBoundary (by decide), by decide⟩

end

end Footage
