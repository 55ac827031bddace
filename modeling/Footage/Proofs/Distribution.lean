import Footage.Proofs.Listing.Guarded
import Footage.Proofs.Listing.Regroup

/-!
# Buckets spread over periods

The periods between two times, made from any buckets in ascending order.

1. The period with the number `k` starts `k` increments after the first and has the buckets that start in it
   (`getElem?_distribute`).
2. Buckets before the first period are passed over and change nothing (`distribute_dropWhile`).
3. All periods together have what starts from the first one on up to the end of the last one, each bucket
   once (`join_map_holding`).

If the sums of every period fit, no sum on the way to them leaves its range, and each period ends after it
starts, also where its end is cut off at the greatest stamp (`distribute_exact`).
-/

namespace Footage.Period

variable {increment start stop : Int} {bs : List Bucket}

/-- The buckets that start within some time from `t` on. -/
def inside (increment : Int) (bs : List Bucket) (t : Int) : List Bucket :=
  bs.filter fun b => t ≤ b.start ∧ b.start < t + increment

theorem holding_eq_inside (increment : Int) (bs : List Bucket) (t : Int) :
    holding increment bs t = ⟨t, Bucket.video (inside increment bs t),
      ((inside increment bs t).map (·.cloudDensity)).sum,
      ((inside increment bs t).map (·.deviceDensity)).sum⟩ :=
  holding_eq increment bs t

/-- The period with the number `k`, if it starts before the end. -/
theorem getElem?_distribute (hi : 0 < increment) (hstop : stop ≤ Stamp.greatest) (hs : Sorted bs)
    (hg : ∀ b ∈ bs, b.start < Stamp.greatest) (k : Nat) : (distribute increment start stop bs)[k]? =
      if start + k * increment < stop then some (holding increment bs (start + k * increment)) else none := by
  rw [distribute_eq hi hstop hs hg, List.getElem?_map, getElem?_starts hi]
  split <;> rfl

theorem distribute_dropWhile (hi : 0 < increment) (hstop : stop ≤ Stamp.greatest) (hs : Sorted bs)
    (hg : ∀ b ∈ bs, b.start < Stamp.greatest) :
    distribute increment start stop (bs.dropWhile (·.start < start)) = distribute increment start stop bs := by
  rw [dropWhile_start_lt hs, distribute_eq hi hstop hs hg,
    distribute_eq hi hstop (hs.filter _) fun b hb => hg b (List.mem_filter.1 hb).1]
  exact List.map_congr_left fun t ht => holding_filter bs (le_of_mem_starts ht).1

/-- What the periods hold together starts between the first start and the last end. -/
theorem join_map_holding (hi : 0 < increment) (bs : List Bucket) (start stop : Int) :
    join start ((starts increment start stop).map (holding increment bs)) =
      holding ((starts increment start stop).length * increment) bs start := by
  fun_induction starts increment start stop with
  | case1 start h ih =>
    have hrest : 0 ≤ ((starts increment (start + increment) stop).length : Int) * increment :=
      Int.mul_nonneg (by omega) (by omega)
    have hlength : ((start :: starts increment (start + increment) stop).length : Int) * increment =
        increment + (starts increment (start + increment) stop).length * increment := by
      rw [List.length_cons, Int.natCast_succ, Int.add_mul, Int.one_mul, Int.add_comm]
    rw [List.map_cons, join_cons, hlength, holding_add bs (by omega) hrest, ← ih]
    rfl
  | case2 start h =>
    have hnone : bs.filter (fun b => start ≤ b.start ∧ b.start < start + ((0 : Nat) : Int) * increment) = [] := by
      refine List.filter_eq_nil_iff.2 fun b _ => ?_
      rw [decide_eq_true_eq]
      omega
    rw [List.length_nil, holding_eq, hnone]
    rfl

/-- **Buckets are spread over periods without loss.** Each bucket from the first period on is counted once, in
the period that it starts in, and the periods leave no gap. -/
theorem distribute_exact (hi : 0 < increment) (hstop : stop ≤ Stamp.greatest) (hs : Sorted bs)
    (hg : ∀ b ∈ bs, b.start < Stamp.greatest)
    (hfits : ∀ k : Nat, start + k * increment < stop →
      Bucket.video (inside increment bs (start + k * increment)) ≤ Density.greatest) :
    let qs := distribute increment start stop bs
    Guarded.distribute increment start stop bs = .ok qs ∧
    (∀ k : Nat, qs[k]? =
      let t := start + k * increment
      let held := inside increment bs t
      if t < stop then some ⟨t, Bucket.video held, (held.map (·.cloudDensity)).sum,
        (held.map (·.deviceDensity)).sum⟩ else none) ∧
    distribute increment start stop (bs.dropWhile (·.start < start)) = qs ∧
    (qs.map (·.density)).sum = Bucket.video (inside (qs.length * increment) bs start) := by
  intro qs
  have hget : ∀ k : Nat, qs[k]? = _ := getElem?_distribute hi hstop hs hg
  refine ⟨Guarded.distribute_eq_ok hi hstop start fun q hq => ?_, fun k => ?_,
    distribute_dropWhile hi hstop hs hg, ?_⟩
  · obtain ⟨k, hk⟩ := List.mem_iff_getElem?.1 hq
    rw [hget, holding_eq_inside] at hk
    by_cases hlt : start + k * increment < stop
    · rw [if_pos hlt] at hk
      obtain rfl := Option.some.inj hk
      exact hfits k hlt
    · rw [if_neg hlt] at hk
      exact absurd hk (by simp)
  · rw [hget, holding_eq_inside]
  · have hqs : qs = (starts increment start stop).map (holding increment bs) :=
      distribute_eq hi hstop hs hg start
    have hjoin := congrArg Period.density (join_map_holding hi bs start stop)
    rw [holding_eq_inside] at hjoin
    rw [hqs, List.length_map]
    exact hjoin

/-- Four buckets, one of them before the first period, and a last period whose end is no stored number. -/
theorem distribute_exact_cut :
    let bucket (back : Int) (cloud inDevice : Nat) : Bucket :=
      ⟨"d", .seconds, Stamp.greatest - back, cloud, inDevice, 0, 0⟩
    let bs := [bucket 5500 1 0, bucket 4500 20 300, bucket 2500 4000 0, bucket 1 0 50000]
    let start := Stamp.greatest - 5000
    Sorted bs ∧ (∀ b ∈ bs, b.start < Stamp.greatest) ∧
    Guarded.distribute 2000 start Stamp.greatest bs =
      .ok [⟨start, 320, 20, 300⟩, ⟨start + 2000, 4000, 4000, 0⟩, ⟨start + 4000, 50000, 0, 50000⟩] ∧
    Bucket.video (inside (3 * 2000) bs start) = 54320 := by
  intro bucket bs start
  have hsorted : Sorted bs := by
    unfold Sorted
    decide
  have hbefore : ∀ b ∈ bs, b.start < Stamp.greatest := by decide
  have hvideo : Bucket.video bs ≤ Density.greatest := by decide
  have hfits : ∀ k : Nat, start + k * 2000 < Stamp.greatest →
      Bucket.video (inside 2000 bs (start + k * 2000)) ≤ Density.greatest := fun k _ =>
    Nat.le_trans (Guarded.video_le_of_sublist List.filter_sublist) hvideo
  obtain ⟨hguarded, -, -, hsum⟩ := distribute_exact (by decide) (Int.le_refl _) hsorted hbefore hfits
  have heval : distribute 2000 start Stamp.greatest bs =
      [⟨start, 320, 20, 300⟩, ⟨start + 2000, 4000, 4000, 0⟩, ⟨start + 4000, 50000, 0, 50000⟩] := by
    decide +kernel
  rw [heval] at hguarded hsum
  exact ⟨hsorted, hbefore, hguarded, hsum.symm.trans (by decide)⟩

end Footage.Period
