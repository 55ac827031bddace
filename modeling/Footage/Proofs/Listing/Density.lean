import Mathlib.Algebra.BigOperators.Group.List.Basic
import Footage.Proofs.Listing.Sound

/-!
# No period holds more video than it is long

1. Buckets of one length that do not overlap hold no more than the stretch of time in which they lie
   (`video_le`).
2. The listed buckets of a sound store are of one length, aligned and within their capacity.
3. A period need not be aligned, but its length is a multiple of theirs. So the buckets that start in it
   are no more than fit into it, and those of the last period end by the end of the listing.

The sums of a period are formed bucket by bucket in 64 bits. Since the whole sum is bounded by the
period's length, so is every sum on the way (`density_le_length`).
-/

namespace Footage

/-! ## Buckets that do not overlap -/

namespace Bucket

/-- All the video of some buckets. -/
def video (bs : List Bucket) : Nat := (bs.map (·.total)).sum

theorem video_cons (b : Bucket) (bs : List Bucket) : video (b :: bs) = b.total + video bs := by
  unfold video
  rw [List.map_cons, List.sum_cons]

theorem video_append (bs bs' : List Bucket) : video (bs ++ bs') = video bs + video bs' := by
  unfold video
  rw [List.map_append, List.sum_append]

theorem video_eq (bs : List Bucket) :
    video bs = (bs.map (·.cloudDensity)).sum + (bs.map (·.deviceDensity)).sum := by
  rw [← List.sum_map_add]
  rfl

theorem total_le_video {b : Bucket} {bs : List Bucket} (h : b ∈ bs) : b.total ≤ video bs := by
  obtain ⟨before, after, rfl⟩ := List.append_of_mem h
  rw [video_append, video_cons]
  omega

/-- Each bucket starts at least `d` after the one before it. -/
def Spaced (d : Int) (bs : List Bucket) : Prop := bs.Pairwise fun a b => a.start + d ≤ b.start

/-- Aligned buckets in ascending order do not overlap. -/
theorem spaced_of_sorted {d : Int} {bs : List Bucket} (hs : Period.Sorted bs) (ha : ∀ b ∈ bs, d ∣ b.start) :
    Spaced d bs := by
  refine hs.imp_of_mem fun {a b} hma hmb hab => ?_
  have := Int.le_of_dvd (by omega) (Int.dvd_sub (ha b hmb) (ha a hma))
  omega

/-- Buckets of length `d` that start between `lo` and `hi` hold no more than from `lo` to the end of a
bucket at `hi`. -/
theorem video_le {d lo hi : Int} {bs : List Bucket} (hs : Spaced d bs)
    (hb : ∀ b ∈ bs, lo ≤ b.start ∧ b.start ≤ hi ∧ (b.total : Int) ≤ d) :
    (video bs : Int) ≤ max 0 (hi - lo + d) := by
  induction bs generalizing lo with
  | nil => exact Int.le_max_left 0 _
  | cons b bs ih =>
    obtain ⟨hfirst, hrest⟩ := List.pairwise_cons.1 hs
    obtain ⟨hlo, hhi, htotal⟩ := hb b List.mem_cons_self
    have hsum : (video bs : Int) ≤ max 0 (hi - (lo + d) + d) := by
      refine ih hrest fun c hc => ?_
      have := hfirst c hc
      obtain ⟨-, hchi, hctotal⟩ := hb c (List.mem_cons_of_mem _ hc)
      exact ⟨by omega, hchi, hctotal⟩
    rw [video_cons]
    omega

/-- Where an aligned time that is before `t + n` lies, if `n` is a multiple of the length: a bucket there
ends by the first aligned time that is not before `t + n`. -/
theorem le_of_aligned {d t n s : Int} (hd : 0 < d) (hn : d ∣ n) (hs : d ∣ s) (ht : t ≤ s)
    (hlt : s < t + n) : t + -t % d ≤ s ∧ s ≤ t + -t % d + n - d := by
  have hm := Int.emod_nonneg (-t) (Int.ne_of_gt hd)
  have hlt' := Int.emod_lt_of_pos (-t) hd
  have hfirst : d ∣ t + -t % d := by
    rw [show t + -t % d = -(-t - -t % d) by omega]
    exact Int.dvd_neg.2 Int.dvd_self_sub_emod
  -- two multiples of `d` that are less than `d` apart are one
  have hlo : t + -t % d ≤ s := Int.not_lt.1 fun hlo => by
    have := Int.le_of_dvd (by omega) (Int.dvd_sub hfirst hs)
    omega
  refine ⟨hlo, ?_⟩
  have := Int.le_of_dvd (by omega) (Int.dvd_sub (Int.dvd_add hfirst hn) hs)
  omega

/-- Aligned buckets that start in a stretch of time, of which the length is a multiple of theirs, hold no
more than that length. -/
theorem video_le_of_aligned {d t n : Int} {bs : List Bucket} (hd : 0 < d) (hn : d ∣ n) (hn0 : 0 ≤ n)
    (hs : Spaced d bs)
    (hb : ∀ b ∈ bs, t ≤ b.start ∧ b.start < t + n ∧ d ∣ b.start ∧ (b.total : Int) ≤ d) :
    (video bs : Int) ≤ n := by
  have hsum : (video bs : Int) ≤ max 0 (t + -t % d + n - d - (t + -t % d) + d) := by
    refine video_le hs fun b hmem => ?_
    obtain ⟨hle, hlt, hdvd, htotal⟩ := hb b hmem
    obtain ⟨hlo, hhi⟩ := le_of_aligned hd hn hdvd hle hlt
    exact ⟨hlo, hhi, htotal⟩
  omega

end Bucket

/-! ## The listed buckets of a sound store -/

theorem Memory.Sound.of_mem_buckets {m : Memory} (h : m.Sound) {device : String} {g : Granularity}
    {b : Bucket} (hb : b ∈ m.buckets device g) : g.millis ∣ b.start ∧ (b.total : Int) ≤ g.millis := by
  obtain ⟨i, hi, ho⟩ := find?_of_entry_eq_some (mem_buckets.1 hb)
  have hk := key_of_find? hi
  obtain ⟨b', hb', ha, htotal⟩ := h.exists_bucket (mem_items.2 (by rw [hk, hi])) (congrArg Key.partition hk)
  obtain rfl := Except.ok.inj (ho.symm.trans hb')
  rw [hk] at ha
  exact ⟨Int.dvd_of_emod_eq_zero ha, htotal⟩

theorem Memory.Sound.spaced_buckets {m : Memory} (h : m.Sound) (device : String) (g : Granularity) :
    Bucket.Spaced g.millis (m.buckets device g) :=
  Bucket.spaced_of_sorted (m.sorted_buckets device g) fun _ hb => (h.of_mem_buckets hb).1

namespace Listing

variable {r : Request} {m : Memory}

theorem of_mem_bucketsOf (hs : m.Sound) {t : Int} {b : Bucket} (hb : b ∈ bucketsOf m r t) :
    t ≤ b.start ∧ b.start < t + r.increment ∧ b.start ≤ r.stop - r.bucketMillis ∧
      r.bucketMillis ∣ b.start ∧ (b.total : Int) ≤ r.bucketMillis := by
  obtain ⟨hmem, hin⟩ := List.mem_filter.1 hb
  obtain ⟨hle, hlt, hend⟩ := of_decide_eq_true hin
  exact ⟨hle, hlt, hend, hs.of_mem_buckets hmem⟩

/-- A period holds no more than its length, and no more than is left to the end of the listing. -/
theorem video_bucketsOf_le (hs : m.Sound) (hcheck : r.check = .ok ()) {t : Int} (ht : t < r.stop) :
    (Bucket.video (bucketsOf m r t) : Int) ≤ r.increment ∧
      (Bucket.video (bucketsOf m r t) : Int) ≤ r.stop - t := by
  obtain ⟨hi, hd, -⟩ := check_eq_ok.1 hcheck
  have hspaced : Bucket.Spaced r.bucketMillis (bucketsOf m r t) := (hs.spaced_buckets _ _).filter _
  constructor
  · apply Bucket.video_le_of_aligned (bucketMillis_pos r) hd (Int.le_of_lt hi) hspaced
    intro b hb
    obtain ⟨hle, hlt, -, hdvd, htotal⟩ := of_mem_bucketsOf hs hb
    exact ⟨hle, hlt, hdvd, htotal⟩
  · have hsum : (Bucket.video (bucketsOf m r t) : Int) ≤
        max 0 (r.stop - r.bucketMillis - t + r.bucketMillis) := by
      refine Bucket.video_le hspaced fun b hb => ?_
      obtain ⟨hle, -, hend, -, htotal⟩ := of_mem_bucketsOf hs hb
      exact ⟨hle, hend, htotal⟩
    omega

/-- The periods of an answered page. -/
theorem Answered.of_mem_results {p : Paging} {after : Option Key} {first : Int} {pg : PeriodPage}
    (h : Answered r p m.items after first pg) {q : Period} (hq : q ∈ pg.results) :
    q.start < r.stop ∧ q = (bucketsOf m r q.start).foldl Period.add (Period.empty q.start) := by
  by_cases hf : first < r.stop
  · obtain ⟨-, stop, hshows⟩ := h.shows hf
    rw [hshows.results_eq] at hq
    obtain ⟨t, ht, rfl⟩ := List.mem_map.1 hq
    have := (Period.le_of_mem_starts ht).2
    have := hshows.stop_le
    rw [Period.start_holding, holding_listed_eq]
    exact ⟨by omega, rfl⟩
  · rw [h.empty (Int.not_lt.1 hf)] at hq
    exact absurd hq List.not_mem_nil

/-- **No period holds more video than it is long**, nor more than is left to the end, so no sum on the way to it
exceeds the greatest density. -/
theorem density_le_length (arrivals : List Rollup.Arrival) (p : Paging) (r : Request)
    (hstart : Stamp.Fits r.start) (hstop : Stamp.Fits r.stop) (hincrement : Stamp.Fits r.increment)
    {desk desk' : Desk Memory} (hrows : desk.store.rows = (Rollup.History.of arrivals).store.rows)
    {pg : PeriodPage} (h : page Memory.backend p r desk = (.ok pg, desk')) :
    ∀ q ∈ pg.results,
      q.density = q.cloudDensity + q.deviceDensity ∧ (q.density : Int) ≤ r.increment ∧
      (q.density : Int) ≤ r.stop - q.start ∧
      let bs := bucketsOf (Rollup.History.of arrivals).store r q.start
      q = bs.foldl Period.add (Period.empty q.start) ∧
      ∀ bs', bs' <+: bs →
        let q' := bs'.foldl Period.add (Period.empty q.start)
        q'.cloudDensity ≤ Density.greatest ∧ q'.deviceDensity ≤ Density.greatest ∧
        q'.density ≤ Density.greatest ∧ ∀ b ∈ bs', b.cloudDensity + b.deviceDensity ≤ Density.greatest := by
  intro q hq
  have hs := Rollup.sound_of arrivals
  obtain ⟨after, first, hanswered⟩ := answered_of_page_eq_ok hs hstart hstop hrows h
  obtain ⟨hlt, hfold⟩ := hanswered.of_mem_results hq
  obtain ⟨hlength, hrest⟩ := video_bucketsOf_le hs hanswered.check hlt
  generalize hbs : bucketsOf (Rollup.History.of arrivals).store r q.start = bs at hfold hlength hrest
  have hgreatest : Stamp.greatest ≤ Density.greatest := by decide
  have hle := hincrement.2
  have hsums := hfold
  rw [Period.foldl_add] at hsums
  have hdensity : q.density = Bucket.video bs := by
    rw [hsums]
    exact Nat.zero_add _
  refine ⟨?_, by omega, by omega, hfold, ?_⟩
  · rw [hdensity, Bucket.video_eq, hsums]
    simp [Period.empty]
  · rintro bs' ⟨later, rfl⟩ q'
    rw [Bucket.video_append] at hlength
    have hprefix := Bucket.video_eq bs'
    have hq' : q' = _ := Period.foldl_add bs' (Period.empty q.start)
    have hq'd : q'.density = Bucket.video bs' := by
      rw [hq']
      exact Nat.zero_add _
    rw [hq'd, hq']
    simp only [Period.empty, Nat.zero_add]
    refine ⟨by omega, by omega, by omega, fun b hb => ?_⟩
    have := Bucket.total_le_video hb
    unfold Bucket.total at this
    omega

/-- Two buckets in a period that starts between aligned times, listed from a position inside the period
before it. -/
theorem density_le_length_unaligned :
    let arrivals : List Rollup.Arrival :=
      [⟨.increment ⟨"d", .seconds, 3000, 1000, .cloud⟩, ⟨7, 0⟩, {}⟩,
        ⟨.increment ⟨"d", .seconds, 4000, 600, .device⟩, ⟨8, 0⟩, {}⟩]
    let r : Request := ⟨"d", .seconds, 500, 5200, 2000, some (Token.encode ⟨"d#SECONDS", 700⟩)⟩
    let q : Period := ⟨2500, 1600, 1000, 600⟩
    let desk : Desk Memory := ⟨(Rollup.History.of arrivals).store, ⟨0, 0⟩⟩
    (page Memory.backend {} r desk).1 = .ok ⟨[q, .empty 4500], none⟩ ∧
      q.density = q.cloudDensity + q.deviceDensity ∧ (q.density : Int) ≤ 2000 ∧
      (q.density : Int) ≤ 5200 - 2500 ∧
      (bucketsOf (Rollup.History.of arrivals).store r 2500).length = 2 := by
  intro arrivals r q desk
  have hpage : (page Memory.backend {} r desk).1 = .ok ⟨[q, .empty 4500], none⟩ :=
    eq_ok_of_toOption (by decide +kernel)
  have h : page Memory.backend {} r desk = (.ok _, (page Memory.backend {} r desk).2) :=
    Prod.ext hpage rfl
  obtain ⟨hsum, hlength, hrest, -⟩ := density_le_length arrivals {} r (by decide) (by decide) (by decide)
    rfl h q List.mem_cons_self
  exact ⟨hpage, hsum, hlength, hrest, by decide +kernel⟩

end Listing

end Footage
