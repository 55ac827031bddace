import Mathlib.Algebra.BigOperators.Group.List.Basic
import Footage.Proofs.Listing.Cuts

/-!
# Listings with longer periods and listings of parts

What all pages of a listing show together does not depend on how they are cut (`Yields`). So listings with
other increments or ends can be compared period by period.

1. A stretch of time holds what its two parts hold (`Period.holding_add`). So `n` periods in a row hold what
   one period of their length holds (`Period.join_holding`).
2. Aligned buckets that start before an aligned time also end by it. So of the periods before it the listing
   that ends there shows all buckets (`holding_listed_until`).
-/

namespace Footage

namespace Period

/-- The video of some periods in one that starts at a time. -/
def join (t : Int) (qs : List Period) : Period :=
  ⟨t, (qs.map (·.density)).sum, (qs.map (·.cloudDensity)).sum, (qs.map (·.deviceDensity)).sum⟩

theorem join_cons (t : Int) (q : Period) (qs : List Period) :
    join t (q :: qs) = ⟨t, q.density + (join t qs).density, q.cloudDensity + (join t qs).cloudDensity,
      q.deviceDensity + (join t qs).deviceDensity⟩ := by
  unfold join
  simp only [List.map_cons, List.sum_cons]

/-- A sum over the buckets of a stretch of time is that over the buckets of its two parts. -/
theorem sum_filter_add (f : Bucket → Nat) (bs : List Bucket) {t u v : Int} (htu : t ≤ u) (huv : u ≤ v) :
    ((bs.filter fun b => t ≤ b.start ∧ b.start < v).map f).sum =
      ((bs.filter fun b => t ≤ b.start ∧ b.start < u).map f).sum +
        ((bs.filter fun b => u ≤ b.start ∧ b.start < v).map f).sum := by
  have hleft : bs.filter (fun b => t ≤ b.start ∧ b.start < u) =
      (bs.filter fun b => t ≤ b.start ∧ b.start < v).filter (fun b => b.start < u) := by
    rw [List.filter_filter]
    refine List.filter_congr fun b _ => ?_
    rw [← Bool.decide_and]
    exact decide_eq_decide.2 (by omega)
  have hright : bs.filter (fun b => u ≤ b.start ∧ b.start < v) =
      (bs.filter fun b => t ≤ b.start ∧ b.start < v).filter (fun b => ! decide (b.start < u)) := by
    rw [List.filter_filter]
    refine List.filter_congr fun b _ => ?_
    rw [← decide_not, ← Bool.decide_and]
    exact decide_eq_decide.2 (by omega)
  rw [hleft, hright, ← List.sum_append, ← List.map_append]
  exact (((List.filter_append_perm _ _).map f).sum_eq).symm

theorem holding_add (bs : List Bucket) {d e : Int} (hd : 0 ≤ d) (he : 0 ≤ e) (t : Int) :
    holding (d + e) bs t = ⟨t, (holding d bs t).density + (holding e bs (t + d)).density,
      (holding d bs t).cloudDensity + (holding e bs (t + d)).cloudDensity,
      (holding d bs t).deviceDensity + (holding e bs (t + d)).deviceDensity⟩ := by
  have hsum : ∀ f : Bucket → Nat, _ := fun f =>
    sum_filter_add f bs (t := t) (u := t + d) (v := t + d + e) (by omega) (by omega)
  rw [holding_eq, holding_eq, holding_eq]
  simp only [← Int.add_assoc, hsum]

/-- Periods in a row hold what one of their length holds. -/
theorem join_holding {increment stop : Int} (hi : 0 < increment) {bs : List Bucket}
    (hb : ∀ b ∈ bs, b.start < stop) (n : ℕ) (t : Int) :
    join t (((starts increment t stop).take n).map (holding increment bs)) = holding (n * increment) bs t := by
  induction n generalizing t with
  | zero =>
    have hnone : bs.filter (fun b => t ≤ b.start ∧ b.start < t + (0 : ℕ) * increment) = [] := by
      refine List.filter_eq_nil_iff.2 fun b _ => ?_
      rw [decide_eq_true_eq]
      omega
    rw [holding_eq, hnone]
    rfl
  | succ n ih =>
    have hn : 0 ≤ (n : Int) * increment := Int.mul_nonneg (by omega) (by omega)
    rw [Int.natCast_succ, Int.add_mul, Int.one_mul, Int.add_comm, holding_add bs (by omega) hn]
    by_cases h : t < stop
    · rw [starts_of_lt hi h, List.take_succ_cons, List.map_cons, join_cons, ← ih (t + increment)]
      rfl
    · -- there is no period left, nor a bucket that starts in one
      have hnone : ∀ d u : Int, t ≤ u → holding d bs u = empty u := by
        intro d u htu
        have hnil : bs.filter (fun b => u ≤ b.start ∧ b.start < u + d) = [] := by
          refine List.filter_eq_nil_iff.2 fun b hmem => ?_
          have := hb b hmem
          rw [decide_eq_true_eq]
          omega
        rw [holding_eq, hnil]
        rfl
      rw [starts_of_le (Int.not_lt.1 h), hnone _ _ (Int.le_refl t), hnone _ _ (by omega)]
      rfl

end Period

namespace Listing

variable {m : Memory} {r : Request}

/-- The pages of the listing come to their end and show these periods together, in any store with the same
rows that fails no range read, whatever the limits on pages. -/
def Yields (m : Memory) (r : Request) (periods : List Period) : Prop :=
  ∀ (p : Paging) (desk : Desk Memory), desk.store.rows = m.rows → desk.store.Readable →
    ∃ pages, Chain Memory.backend p r none desk pages none ∧
      (∀ pages' failure, Chain Memory.backend p r none desk pages' failure → pages' = pages ∧ failure = none) ∧
      pages.flatMap (·.results) = periods

/-- The periods of a listing. -/
def periodsOf (m : Memory) (r : Request) : List Period :=
  (Period.starts r.increment r.start r.stop).map (Period.holding r.increment (listed r m.items))

theorem yields_periodsOf (hs : m.Sound) (hr : r.Bounded) (hcheck : r.check = .ok ())
    (hlast : Stamp.least ≤ r.stop - r.bucketMillis) (hnarrow : r.stop - r.start ≤ Stamp.greatest) :
    Yields m r (periodsOf m r) := by
  intro p desk hrows hread
  obtain ⟨pages, failure, hchain, hlists, hfailure⟩ := chain_of_sound hs hr hcheck hlast p hrows
  obtain rfl : failure = none := hfailure hread hnarrow
  exact ⟨pages, hchain, fun _ _ h => hchain.unique h, hlists.results_eq rfl⟩

/-- A listing with increments of `n` times the length shows `n` periods in one. -/
theorem getElem?_periodsOf (hs : m.Sound) (hi : 0 < r.increment) {n : ℕ} (hn : 1 ≤ n) (k : ℕ) :
    (periodsOf m { r with increment := n * r.increment })[k]? = (periodsOf m r)[k * n]?.map fun q =>
      Period.join q.start (((periodsOf m r).drop (k * n)).take n) := by
  have hlong : 0 < n * r.increment := Int.mul_pos (by omega) hi
  have hat : r.start + ((k * n : ℕ) : Int) * r.increment = r.start + k * (n * r.increment) := by
    rw [Int.natCast_mul, Int.mul_assoc]
  have hbefore : ∀ c ∈ listed r m.items, c.start < r.stop := by
    intro c hc
    have := ((stocked_of_sound hs r).of_mem_listed hc).2.2
    have := bucketMillis_pos r
    omega
  unfold periodsOf
  rw [List.getElem?_map, List.getElem?_map, ← List.map_drop, ← List.map_take, Period.getElem?_starts hlong,
    Period.getElem?_starts hi, Period.drop_starts hi, hat]
  by_cases h : r.start + k * (n * r.increment) < r.stop
  · simp only [if_pos h, Option.map_some, Period.start_holding]
    rw [Period.join_holding hi hbefore]
    rfl
  · rw [if_neg h]
    rfl

/-- Before an aligned time the listing that ends there has the same periods. -/
theorem holding_listed_until (hs : m.Sound) {mid : Int} (hmid : r.bucketMillis ∣ mid) (hle : mid ≤ r.stop)
    {t : Int} (ht : t + r.increment ≤ mid) :
    Period.holding r.increment (listed { r with stop := mid } m.items) t =
      Period.holding r.increment (listed r m.items) t := by
  unfold Period.holding
  congr 1
  show (List.filter _ (List.filter _ (m.buckets r.device r.granularity))) =
    List.filter _ (List.filter _ (m.buckets r.device r.granularity))
  rw [List.filter_filter, List.filter_filter]
  refine List.filter_congr fun c hc => ?_
  rw [← Bool.decide_and, ← Bool.decide_and]
  refine decide_eq_decide.2 (and_congr_right fun hin => ?_)
  show c.start ≤ mid - r.bucketMillis ↔ c.start ≤ r.stop - r.bucketMillis
  have hfits : c.start + r.bucketMillis ≤ mid := by
    have := Int.le_of_dvd (by omega) (Int.dvd_sub hmid (hs.of_mem_buckets hc).1)
    omega
  omega

/-- A listing from an aligned start on is that up to a boundary and that from there on. -/
theorem periodsOf_append (hs : m.Sound) (hi : 0 < r.increment) (hd : r.bucketMillis ∣ r.increment)
    (ha : r.bucketMillis ∣ r.start) {mid : Int} (hmid : r.increment ∣ mid - r.start) (hle : r.start ≤ mid)
    (hle' : mid ≤ r.stop) :
    periodsOf m r = periodsOf m { r with stop := mid } ++ periodsOf m { r with start := mid } := by
  have hamid : r.bucketMillis ∣ mid := by
    rw [show mid = mid - r.start + r.start by omega]
    exact Int.dvd_add (Int.dvd_trans hd hmid) ha
  unfold periodsOf
  rw [Period.starts_append hi hmid hle hle', List.map_append]
  congr 1
  refine List.map_congr_left fun t ht => (holding_listed_until hs hamid hle' ?_).symm
  -- a period before a boundary ends by it
  obtain ⟨-, hlt⟩ := Period.le_of_mem_starts ht
  have hdvd : r.increment ∣ mid - t := by
    rw [show mid - t = mid - r.start - (t - r.start) by omega]
    exact Int.dvd_sub hmid (Period.dvd_of_mem_starts ht)
  have := Int.le_of_dvd (by omega) hdvd
  omega

/-- **Listings coarsen and split.** A listing by longer periods sums those of a finer one, and one over a range
is made of those over its two parts, however both are cut. -/
theorem listing_regroups (arrivals : List Rollup.Arrival) (r : Request) (hstart : Stamp.Fits r.start)
    (hstop : Stamp.Fits r.stop) (hcheck : r.check = .ok ())
    (hlast : Stamp.least ≤ r.stop - r.granularity.millis) (hnarrow : r.stop - r.start ≤ Stamp.greatest) :
    let m := (Rollup.History.of arrivals).store
    ∃ periods, Yields m r periods ∧
      (∀ n : ℕ, 1 ≤ n → ∃ longer, Yields m { r with increment := n * r.increment } longer ∧
        ∀ k, longer[k]? = periods[k * n]?.map fun q =>
          Period.join q.start ((periods.drop (k * n)).take n)) ∧
      (r.granularity.Aligned r.start → ∀ k : ℕ, r.start < r.start + k * r.increment →
        r.start + k * r.increment < r.stop → ∃ before later,
          Yields m { r with stop := r.start + k * r.increment } before ∧
          Yields m { r with start := r.start + k * r.increment } later ∧ periods = before ++ later) := by
  intro m
  have hs : m.Sound := Rollup.sound_of arrivals
  obtain ⟨hi, hd, hlt⟩ := check_eq_ok.1 hcheck
  have hr : r.Bounded := ⟨hi, hstart.1, hstop.2⟩
  refine ⟨periodsOf m r, yields_periodsOf hs hr hcheck hlast hnarrow, fun n hn => ?_, fun ha k hk hk' => ?_⟩
  · have hlong : 0 < n * r.increment := Int.mul_pos (by omega) hi
    refine ⟨_, yields_periodsOf hs ⟨hlong, hr.least_le, hr.le_greatest⟩ ?_ hlast hnarrow,
      getElem?_periodsOf hs hi hn⟩
    exact check_eq_ok.2 ⟨hlong, Int.dvd_mul_of_dvd_right hd, hlt⟩
  · have hmid : r.increment ∣ r.start + k * r.increment - r.start := ⟨k, by rw [Int.mul_comm]; omega⟩
    have hfirst : r.increment ≤ k * r.increment := Int.le_of_dvd (by omega) (Int.dvd_mul_left _ _)
    have hbucket : r.bucketMillis ≤ r.increment := Int.le_of_dvd hi hd
    have hleast := hr.least_le
    have hgreatest := hr.le_greatest
    refine ⟨_, _, yields_periodsOf hs ⟨hi, hr.least_le, ?_⟩ (check_eq_ok.2 ⟨hi, hd, hk⟩) ?_ ?_,
      yields_periodsOf hs ⟨hi, ?_, hr.le_greatest⟩ (check_eq_ok.2 ⟨hi, hd, hk'⟩) hlast ?_,
      periodsOf_append hs hi hd (Int.dvd_of_emod_eq_zero ha) hmid (Int.le_of_lt hk) (Int.le_of_lt hk')⟩
    · show r.start + k * r.increment ≤ Stamp.greatest
      omega
    · show Stamp.least ≤ r.start + k * r.increment - r.bucketMillis
      omega
    · show r.start + k * r.increment - r.start ≤ Stamp.greatest
      omega
    · show Stamp.least ≤ r.start + k * r.increment
      omega
    · show r.stop - (r.start + k * r.increment) ≤ Stamp.greatest
      omega

/-- Five periods of a second, two at a time, and cut in two after the second one. -/
theorem listing_regroups_pairs :
    let arrivals : List Rollup.Arrival :=
      [⟨.increment ⟨"d", .seconds, 1000, 400, .device⟩, ⟨7, 0⟩, {}⟩,
        ⟨.increment ⟨"d", .seconds, 3000, 700, .cloud⟩, ⟨8, 0⟩, {}⟩,
        ⟨.increment ⟨"d", .seconds, 4000, 100, .device⟩, ⟨9, 0⟩, {}⟩]
    let m := (Rollup.History.of arrivals).store
    let r : Request := ⟨"d", .seconds, 1000, 6000, 1000, none⟩
    let periods : List Period :=
      [⟨1000, 400, 0, 400⟩, .empty 2000, ⟨3000, 700, 700, 0⟩, ⟨4000, 100, 0, 100⟩, .empty 5000]
    Yields m r periods ∧
      (∃ longer, Yields m ⟨"d", .seconds, 1000, 6000, 2000, none⟩ longer ∧
        longer[1]? = some ⟨3000, 800, 700, 100⟩ ∧ longer[2]? = some (.empty 5000)) ∧
      ∃ before later, Yields m ⟨"d", .seconds, 1000, 3000, 1000, none⟩ before ∧
        Yields m ⟨"d", .seconds, 3000, 6000, 1000, none⟩ later ∧ periods = before ++ later := by
  intro arrivals m r periods
  obtain ⟨shown, hshown, hlonger, hparts⟩ := listing_regroups arrivals r (by decide) (by decide)
    (check_eq_ok.2 ⟨by decide, by decide, by decide⟩) (by decide) (by decide)
  have hread : m.Readable := by
    unfold Memory.Readable
    decide +kernel
  -- all of it is on one page
  have hpage : (page Memory.backend {} r ⟨m, ⟨0, 0⟩⟩).1 = .ok ⟨periods, none⟩ :=
    eq_ok_of_toOption (by decide +kernel)
  have hchain : Chain Memory.backend {} r none ⟨m, ⟨0, 0⟩⟩ [⟨periods, none⟩] none :=
    .last (Prod.ext hpage rfl) rfl
  obtain ⟨pages, -, hunique, hall⟩ := hshown {} ⟨m, ⟨0, 0⟩⟩ rfl hread
  obtain rfl : periods = shown := by
    rw [← hall, ← (hunique _ _ hchain).1, List.flatMap_cons, List.flatMap_nil, List.append_nil]
  obtain ⟨longer, hyields, hat⟩ := hlonger 2 (by decide)
  exact ⟨hshown, ⟨longer, hyields, hat 1, hat 2⟩, hparts (by decide) 2 (by decide) (by decide)⟩

end Listing

end Footage
