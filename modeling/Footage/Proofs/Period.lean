import Mathlib.Algebra.GroupWithZero.Nat
import Footage.Period

/-!
# Periods of a listing

`starts` are the times at which the periods between two times start, one increment after the other.
`distribute` gives one period for each of them, with the buckets that start in it (`distribute_eq`),
and where two stretches meet at a boundary their periods join up (`starts_append`).
-/

namespace Footage.Period

/-- The starts of the periods from `start` up to `stop`. -/
def starts (increment start stop : Int) : List Int :=
  if _h : start < stop ∧ 0 < increment then
    start :: starts increment (start + increment) stop
  else []
  termination_by (stop - start).toNat

/-- The period that starts at a time, with the buckets of a list that start in it. -/
def holding (increment : Int) (buckets : List Bucket) (start : Int) : Period :=
  (buckets.filter fun b => start ≤ b.start ∧ b.start < start + increment).foldl add (empty start)

section

variable {increment start stop mid p : Int}

theorem starts_of_lt (hi : 0 < increment) (h : start < stop) :
    starts increment start stop = start :: starts increment (start + increment) stop := by
  rw [starts, dif_pos ⟨h, hi⟩]

theorem starts_of_le (h : stop ≤ start) : starts increment start stop = [] := by
  rw [starts, dif_neg (by omega)]

theorem le_of_mem_starts : ∀ {start : Int}, p ∈ starts increment start stop → start ≤ p ∧ p < stop := by
  intro start h
  fun_induction starts increment start stop with
  | case1 start hs ih =>
    rcases List.mem_cons.1 h with rfl | h
    · exact ⟨Int.le_refl _, hs.1⟩
    · have := ih h
      omega
  | case2 => exact absurd h (by simp)

theorem dvd_of_mem_starts (h : p ∈ starts increment start stop) : increment ∣ p - start := by
  fun_induction starts increment start stop with
  | case1 start hs ih =>
    rcases List.mem_cons.1 h with rfl | h
    · rw [Int.sub_self]
      exact Int.dvd_zero _
    · obtain ⟨k, hk⟩ := ih h
      exact ⟨k + 1, by rw [Int.mul_add, Int.mul_one]; omega⟩
  | case2 => exact absurd h (by simp)

theorem mem_starts (hi : 0 < increment) :
    p ∈ starts increment start stop ↔ p < stop ∧ ∃ k : Nat, p = start + k * increment := by
  constructor
  · intro h
    obtain ⟨hle, hlt⟩ := le_of_mem_starts h
    obtain ⟨k, hk⟩ := dvd_of_mem_starts h
    have hk0 : 0 ≤ k := by
      refine Int.le_of_mul_le_mul_left (a := increment) ?_ hi
      omega
    exact ⟨hlt, k.toNat, by rw [Int.toNat_of_nonneg hk0, Int.mul_comm]; omega⟩
  · rintro ⟨hlt, k, hk⟩
    induction k generalizing start with
    | zero =>
      rw [Int.natCast_zero, Int.zero_mul, Int.add_zero] at hk
      subst hk
      rw [starts_of_lt hi hlt]
      exact List.mem_cons_self
    | succ k ih =>
      have hn : 0 ≤ (k : Int) * increment := Int.mul_nonneg (by omega) (by omega)
      rw [Int.natCast_succ, Int.add_mul, Int.one_mul] at hk
      rw [starts_of_lt hi (by omega)]
      exact List.mem_cons_of_mem _ (ih (by omega))

theorem pairwise_starts (hi : 0 < increment) : (starts increment start stop).Pairwise (· < ·) := by
  fun_induction starts increment start stop with
  | case1 start hs ih =>
    refine List.pairwise_cons.2 ⟨fun p hp => ?_, ih⟩
    have := (le_of_mem_starts hp).1
    omega
  | case2 => exact List.Pairwise.nil

theorem drop_starts (hi : 0 < increment) (k : Nat) :
    (starts increment start stop).drop k = starts increment (start + k * increment) stop := by
  induction k generalizing start with
  | zero => rw [Int.natCast_zero, Int.zero_mul, Int.add_zero, List.drop_zero]
  | succ k ih =>
    have hk : 0 ≤ (k : Int) * increment := Int.mul_nonneg (by omega) (by omega)
    rw [Int.natCast_succ, Int.add_mul, Int.one_mul]
    by_cases h : start < stop
    · rw [starts_of_lt hi h, List.drop_succ_cons, ih]
      congr 1
      omega
    · rw [starts_of_le (Int.not_lt.1 h), starts_of_le (by omega), List.drop_nil]

/-- The period with the number `k`, if there are so many. -/
theorem getElem?_starts (hi : 0 < increment) (k : Nat) : (starts increment start stop)[k]? =
    if start + k * increment < stop then some (start + k * increment) else none := by
  rw [← List.head?_drop, drop_starts hi]
  by_cases h : start + k * increment < stop
  · rw [starts_of_lt hi h, if_pos h, List.head?_cons]
  · rw [starts_of_le (Int.not_lt.1 h), if_neg h, List.head?_nil]

/-- There are at most `n` periods if they end within `n` increments. -/
theorem length_starts_le_iff (hi : 0 < increment) {n : Nat} :
    (starts increment start stop).length ≤ n ↔ stop ≤ start + n * increment := by
  induction n generalizing start with
  | zero =>
    rw [Int.natCast_zero, Int.zero_mul, Int.add_zero, Nat.le_zero, List.length_eq_zero_iff]
    by_cases h : start < stop
    · rw [starts_of_lt hi h]
      exact ⟨fun h => absurd h (by simp), fun hle => absurd h (Int.not_lt.2 hle)⟩
    · exact ⟨fun _ => Int.not_lt.1 h, starts_of_le⟩
  | succ n ih =>
    have hn : 0 ≤ (n : Int) * increment := Int.mul_nonneg (by omega) (by omega)
    rw [Int.natCast_succ, Int.add_mul, Int.one_mul]
    by_cases h : start < stop
    · rw [starts_of_lt hi h, List.length_cons, Nat.succ_le_succ_iff, ih]
      omega
    · rw [starts_of_le (Int.not_lt.1 h)]
      exact ⟨fun _ => by omega, fun _ => Nat.zero_le _⟩

/-- There are as many periods as whole increments, and one more for a rest. -/
theorem length_starts_le : (starts increment start stop).length ≤ ((stop - start) / increment).toNat + 1 := by
  by_cases hi : 0 < increment
  · rw [length_starts_le_iff hi]
    have hlt := Int.lt_ediv_add_one_mul_self (stop - start) hi
    have hle : ((stop - start) / increment + 1) * increment ≤
        ((((stop - start) / increment).toNat + 1 : Nat) : Int) * increment :=
      Int.mul_le_mul_of_nonneg_right (by omega) (Int.le_of_lt hi)
    omega
  · rw [starts, dif_neg (fun h => hi h.2)]
    exact Nat.zero_le _

/-- That an end is cut off at the greatest stamp makes no difference to the periods after it. -/
theorem starts_later (hstop : stop ≤ Stamp.greatest) :
    starts increment (Stamp.later start increment) stop = starts increment (start + increment) stop := by
  unfold Stamp.later
  by_cases hle : start + increment ≤ Stamp.greatest
  · rw [show min (start + increment) Stamp.greatest = start + increment by omega]
  · rw [starts_of_le (by omega), starts_of_le (by omega)]

/-- Two stretches that meet at a boundary are one. -/
theorem starts_append (hi : 0 < increment) (hd : increment ∣ mid - start) (hs : start ≤ mid)
    (hm : mid ≤ stop) :
    starts increment start stop = starts increment start mid ++ starts increment mid stop := by
  obtain ⟨k, hk⟩ := hd
  have hk0 : 0 ≤ k := by
    refine Int.le_of_mul_le_mul_left (a := increment) ?_ hi
    omega
  obtain ⟨n, rfl⟩ := Int.eq_ofNat_of_zero_le hk0
  induction n generalizing start with
  | zero =>
    rw [show mid = start by simp at hk; omega, starts_of_le (Int.le_refl start), List.nil_append]
  | succ n ih =>
    have hn : 0 ≤ increment * (n : Int) := Int.mul_nonneg (by omega) (by omega)
    rw [Int.natCast_succ, Int.mul_add, Int.mul_one] at hk
    rw [starts_of_lt hi (by omega : start < stop), starts_of_lt hi (by omega : start < mid),
      List.cons_append, ← ih (by omega) (by omega) (by omega)]

end

/-! ## Buckets in their periods -/

theorem foldl_add (bs : List Bucket) (p : Period) :
    bs.foldl add p = ⟨p.start, p.density + (bs.map (·.total)).sum,
      p.cloudDensity + (bs.map (·.cloudDensity)).sum,
      p.deviceDensity + (bs.map (·.deviceDensity)).sum⟩ := by
  induction bs generalizing p with
  | nil => simp
  | cons b bs ih =>
    rw [List.foldl_cons, ih]
    simp [add, Nat.add_assoc]

/-- The video of a period, summed over its buckets. -/
theorem holding_eq (increment : Int) (bs : List Bucket) (t : Int) :
    let inside := bs.filter fun b => t ≤ b.start ∧ b.start < t + increment
    holding increment bs t = ⟨t, (inside.map (·.total)).sum, (inside.map (·.cloudDensity)).sum,
      (inside.map (·.deviceDensity)).sum⟩ := by
  unfold holding
  rw [foldl_add]
  simp [empty]

@[simp] theorem start_holding (increment : Int) (bs : List Bucket) (t : Int) :
    (holding increment bs t).start = t := by
  rw [holding_eq]

/-- The periods between two times are shown at their starts, whatever the buckets are. -/
theorem map_start_distribute {increment stop : Int} (hi : 0 < increment)
    (hstop : stop ≤ Stamp.greatest) (start : Int) (bs : List Bucket) :
    (distribute increment start stop bs).map (·.start) = starts increment start stop := by
  fun_induction distribute increment start stop bs with
  | case1 start bs h next period rest heq ih =>
    have hperiod : period.start = start := by
      rw [show period = (gather start next bs).1 by rw [heq]]
      unfold gather
      simp only
      rw [foldl_add]
      rfl
    rw [List.map_cons, hperiod, ih, starts_of_lt hi h.1]
    exact congrArg (start :: ·) (starts_later hstop)
  | case2 start bs h => rw [starts_of_le (by omega), List.map_nil]

theorem map_start_holding (increment : Int) (bs : List Bucket) (ts : List Int) :
    (ts.map (holding increment bs)).map (·.start) = ts := by
  rw [List.map_map]
  exact List.map_id'' (start_holding increment bs) ts

/-! ## Periods without a gap -/

section

variable {increment start stop : Int} {qs : List Period}

theorem pairwise_of_map_start (hi : 0 < increment)
    (h : qs.map (·.start) = starts increment start stop) : qs.Pairwise fun q q' => q.start < q'.start := by
  have hp : (qs.map (·.start)).Pairwise (· < ·) := h ▸ pairwise_starts hi
  exact List.pairwise_map.1 hp

theorem exists_start_iff (hi : 0 < increment) (h : qs.map (·.start) = starts increment start stop)
    (t : Int) : (∃ q ∈ qs, q.start = t) ↔ t < stop ∧ ∃ k : Nat, t = start + k * increment := by
  rw [← mem_starts hi, ← h, List.mem_map]

end

/-! ## Buckets in ascending order -/

/-- The buckets come in ascending order. -/
def Sorted (bs : List Bucket) : Prop := bs.Pairwise fun a b => a.start < b.start

theorem takeWhile_start_lt {bs : List Bucket} (h : Sorted bs) (x : Int) :
    bs.takeWhile (·.start < x) = bs.filter (·.start < x) := by
  induction bs with
  | nil => rfl
  | cons b bs ih =>
    obtain ⟨hb, hbs⟩ := List.pairwise_cons.1 h
    by_cases hx : b.start < x
    · rw [List.takeWhile_cons_of_pos (by simpa using hx), List.filter_cons_of_pos (by simpa using hx),
        ih hbs]
    · rw [List.takeWhile_cons_of_neg (by simpa using hx), List.filter_cons_of_neg (by simpa using hx)]
      refine (List.filter_eq_nil_iff.2 fun c hc => ?_).symm
      have := hb c hc
      simp only [decide_eq_true_eq]
      omega

theorem dropWhile_start_lt {bs : List Bucket} (h : Sorted bs) (x : Int) :
    bs.dropWhile (·.start < x) = bs.filter (x ≤ ·.start) := by
  induction bs with
  | nil => rfl
  | cons b bs ih =>
    obtain ⟨hb, hbs⟩ := List.pairwise_cons.1 h
    by_cases hx : b.start < x
    · rw [List.dropWhile_cons_of_pos (by simpa using hx), List.filter_cons_of_neg (by simpa using hx),
        ih hbs]
    · rw [List.dropWhile_cons_of_neg (by simpa using hx), List.filter_cons_of_pos (by simpa using hx)]
      refine congrArg (b :: ·) (List.filter_eq_self.2 fun c hc => ?_).symm
      have := hb c hc
      simp only [decide_eq_true_eq]
      omega

theorem holding_filter {increment start p : Int} (bs : List Bucket) (h : start ≤ p) :
    holding increment (bs.filter (start ≤ ·.start)) p = holding increment bs p := by
  unfold holding
  rw [List.filter_filter]
  congr 1
  refine List.filter_congr fun b _ => ?_
  rw [← Bool.decide_and]
  refine decide_eq_decide.2 ⟨fun hb => hb.1, fun hb => ⟨hb, by omega⟩⟩

/-- Every period between two times is shown, with the buckets that start in it; that the last end is
cut off at the greatest stamp makes no difference. -/
theorem distribute_eq {increment stop : Int} (hi : 0 < increment) (hstop : stop ≤ Stamp.greatest)
    {bs : List Bucket} (hs : Sorted bs) (hg : ∀ b ∈ bs, b.start < Stamp.greatest) (start : Int) :
    distribute increment start stop bs =
      (starts increment start stop).map (holding increment bs) := by
  fun_induction distribute increment start stop bs with
  | case1 start bs h next period rest heq ih =>
    have hnext : next = min (start + increment) Stamp.greatest := rfl
    have hrest : rest = bs.filter (next ≤ ·.start) := by
      rw [← dropWhile_start_lt hs]
      exact (congrArg Prod.snd heq).symm
    have hperiod : period = holding increment bs start := by
      rw [show period = (gather start next bs).1 by rw [heq]]
      unfold gather holding
      simp only
      rw [takeWhile_start_lt hs, List.filter_filter]
      congr 1
      refine List.filter_congr fun b hb => ?_
      have := hg b hb
      rw [← Bool.decide_and]
      exact decide_eq_decide.2 ⟨fun hb => ⟨hb.1, by omega⟩, fun hb => ⟨hb.1, by omega⟩⟩
    rw [starts_of_lt hi h.1, List.map_cons, ← hperiod,
      ih (hrest ▸ hs.filter _) fun b hb => hg b (List.mem_filter.1 (hrest ▸ hb)).1]
    refine congrArg (period :: ·) ?_
    rw [show next = Stamp.later start increment from rfl, starts_later hstop, hrest]
    refine List.map_congr_left fun p hp => holding_filter bs ?_
    have := (le_of_mem_starts hp).1
    omega
  | case2 start bs h =>
    rw [starts_of_le (by omega), List.map_nil]

end Footage.Period
