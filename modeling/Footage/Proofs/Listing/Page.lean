import Footage.Proofs.Listing.Buckets
import Footage.Proofs.Listing.Gather

/-!
# One page of a listing

`Shows` says what a page is: the periods from the first one up to a stop, each with the buckets that
start in it, and a token unless the stop is the end. The token's key resumes at the stop, and nothing
is stored between the two, so the next page lacks nothing and gets further. `page_ends` is the main
statement: an accepted request ends with such a page or with an error of the store.
-/

namespace Footage.Listing

open Footage.Task

variable {σ : Type} {b : Backend σ} {I : σ → Prop} {E : StoreError → Prop} {items : List Item}
  {r : Request} {p : Paging} {after : Option Key} {first stop : Int} {g : Gathered}

/-- The buckets that a listing shows: those of its device that end by its end. -/
def listed (r : Request) (items : List Item) : List Bucket :=
  (Bucket.decoded r.device r.granularity (items.filter (·.key.partition = r.partition))).filter
    (·.start ≤ r.stop - r.bucketMillis)

/-- The stored buckets that start in the period at `t` and end by the end of the listing. -/
def bucketsOf (m : Memory) (r : Request) (t : Int) : List Bucket :=
  (m.buckets r.device r.granularity).filter fun c =>
    t ≤ c.start ∧ c.start < t + r.increment ∧ c.start ≤ r.stop - r.bucketMillis

theorem holding_listed_eq (m : Memory) (t : Int) :
    Period.holding r.increment (listed r m.items) t = (bucketsOf m r t).foldl Period.add (Period.empty t) := by
  have hbs : (listed r m.items).filter (fun c => t ≤ c.start ∧ c.start < t + r.increment) =
      bucketsOf m r t := by
    show ((m.buckets r.device r.granularity).filter _).filter _ = _
    rw [List.filter_filter]
    refine List.filter_congr fun c _ => ?_
    rw [← Bool.decide_and]
    exact decide_eq_decide.2 and_assoc
  unfold Period.holding
  rw [hbs]

/-- The items of a store whose buckets can be listed. -/
structure Listable (r : Request) (items : List Item) : Prop where
  ascending : Ascending items
  aligned : BucketAligned r items
  readable : ∀ i ∈ items, i.key.partition = r.partition →
    ∃ bucket, Bucket.ofItem r.device r.granularity i = .ok bucket

/-- The times of a request are stored numbers and its increment is positive. -/
structure Request.Bounded (r : Request) : Prop where
  increment_pos : 0 < r.increment
  least_le : Stamp.least ≤ r.start
  le_greatest : r.stop ≤ Stamp.greatest

/-- A page that resumes after the key, if there is one, starts with the period at `first`. -/
def Resumes (r : Request) (first : Int) : Option Key → Prop
  | none => first = r.start
  | some k => k.partition = r.partition ∧ r.start ≤ k.sort ∧ k.sort < r.stop ∧
      first = nextBoundary r.start r.increment k.sort

/-- Nothing that is wanted after the key is stored before `first`. -/
def Clear (r : Request) (p : Paging) (items : List Item) (first : Int) (after : Option Key) : Prop :=
  ∀ i ∈ wanted r p after items, first ≤ i.key.sort

/-- What a page shows. -/
structure Shows (r : Request) (p : Paging) (items : List Item) (after : Option Key) (first stop : Int)
    (page : PeriodPage) : Prop where
  first_le : first ≤ stop
  stop_le : stop ≤ r.stop
  results_eq : page.results =
    (Period.starts r.increment first stop).map (Period.holding r.increment (listed r items))
  at_end : page.token = none → stop = r.stop
  before_end : ∀ t ∈ page.token, stop < r.stop ∧ ∃ k, t = Token.encode k ∧ Resumes r stop (some k) ∧
    (∀ j ∈ after, j.sort < k.sort) ∧ Clear r p items stop (some k)
  advances : Clear r p items first after → first < stop

theorem wanted_eq (r : Request) (p : Paging) (after : Option Key) (items : List Item) :
    wanted r p after items = (items.filter (·.key.partition = r.partition)).filter fun i =>
      ((query r p (r.stop - r.bucketMillis)).resumed after).least ≤ i.key.sort ∧
        i.key.sort ≤ r.stop - r.bucketMillis := by
  unfold wanted RangeRead.select
  rw [List.filter_filter]
  refine List.filter_congr fun i _ => ?_
  rw [← Bool.decide_and]
  exact decide_eq_decide.2 ⟨fun ⟨hp, hl, hu⟩ => ⟨⟨hl, hu⟩, hp⟩, fun ⟨⟨hl, hu⟩, hp⟩ => ⟨hp, hl, hu⟩⟩

theorem least_some (hR : Resumes r first after) (hstop : r.stop ≤ Stamp.greatest) :
    ∀ k ∈ after, ((query r p (r.stop - r.bucketMillis)).resumed after).least = k.sort + 1 := by
  rintro k hk
  rw [Option.mem_def] at hk
  subst hk
  obtain ⟨-, hs, hlt, -⟩ := hR
  show max r.start (min (k.sort + 1) Stamp.greatest) = k.sort + 1
  omega

/-- Whatever starts in a page's periods is wanted. -/
theorem least_le_first (hi : 0 < r.increment) (hR : Resumes r first after)
    (hstop : r.stop ≤ Stamp.greatest) :
    ((query r p (r.stop - r.bucketMillis)).resumed after).least ≤ first := by
  cases after with
  | none => exact Int.le_of_eq (show r.start = first from hR.symm)
  | some k =>
    rw [least_some hR hstop k rfl, hR.2.2.2]
    exact lt_nextBoundary hi

theorem start_le_first (hi : 0 < r.increment) (hR : Resumes r first after) : r.start ≤ first := by
  cases after with
  | none => exact Int.le_of_eq (show r.start = first from hR.symm)
  | some k =>
    have : k.sort < nextBoundary r.start r.increment k.sort := lt_nextBoundary hi
    rw [hR.2.2.2]
    have := hR.2.1
    omega

theorem dvd_first_sub (hR : Resumes r first after) : r.increment ∣ first - r.start := by
  cases after with
  | none =>
    rw [show first = r.start from hR, Int.sub_self]
    exact Int.dvd_zero _
  | some k =>
    rw [hR.2.2.2]
    exact dvd_nextBoundary_sub

/-- A page that resumes at another one's stop leaves whole increments to it. -/
theorem Resumes.dvd_sub {after' : Option Key} (h : Resumes r first after) (h' : Resumes r stop after') :
    r.increment ∣ stop - first := by
  rw [show stop - first = stop - r.start - (first - r.start) by omega]
  exact Int.dvd_sub (dvd_first_sub h') (dvd_first_sub h)

/-- The periods of a page hold the same gathered buckets as listed ones. -/
theorem holding_gathered (hr : r.Bounded) (hR : Resumes r first after) (hg : Gathers r p items after g)
    (hle : stop ≤ g.stop) (hd : stop < r.stop → r.increment ∣ stop - first) {t : Int}
    (ht : t ∈ Period.starts r.increment first stop) :
    Period.holding r.increment (Bucket.decoded r.device r.granularity g.items) t =
      Period.holding r.increment (listed r items) t := by
  obtain ⟨hft, hts⟩ := Period.le_of_mem_starts ht
  have hleast : ((query r p (r.stop - r.bucketMillis)).resumed after).least ≤ first :=
    least_le_first hr.increment_pos hR hr.le_greatest
  have hb := bucketMillis_pos r
  have hend : ∀ s, s < t + r.increment → s ≤ r.stop - r.bucketMillis → s < g.stop := by
    intro s hs hsb
    by_cases hlt : stop < r.stop
    · -- a period before the stop ends by it
      have hdt : r.increment ∣ stop - t := by
        rw [show stop - t = stop - first - (t - first) by omega]
        exact Int.dvd_sub (hd hlt) (Period.dvd_of_mem_starts ht)
      have := Int.le_of_dvd (by omega) hdt
      omega
    · omega
  unfold listed Period.holding
  rw [hg.items_eq, wanted_eq, Bucket.decoded_filter (· < g.stop),
    Bucket.decoded_filter fun s => _ ≤ s ∧ s ≤ r.stop - r.bucketMillis, List.filter_filter,
    List.filter_filter, List.filter_filter]
  congr 1
  refine List.filter_congr fun c _ => ?_
  simp only [← Bool.decide_and]
  refine decide_eq_decide.2 ⟨?_, ?_⟩
  · rintro ⟨⟨⟨h₁, h₂⟩, -⟩, -, h₄⟩
    exact ⟨⟨h₁, h₂⟩, h₄⟩
  · rintro ⟨⟨h₁, h₂⟩, h₄⟩
    exact ⟨⟨⟨h₁, h₂⟩, hend _ h₂ h₄⟩, by omega, h₄⟩

/-- A full page stops a whole number of increments after its first period. -/
theorem pageStop_cases (r : Request) (p : Paging) (first d : Int) :
    pageStop r p first d = (d, false) ∨
      ∃ n : Int, 1 ≤ n ∧ first + n * r.increment < d ∧
        pageStop r p first d = (first + n * r.increment, true) := by
  unfold pageStop
  cases hf : fullAt? r p first with
  | none => exact .inl rfl
  | some cap =>
    unfold fullAt? at hf
    obtain ⟨c, hc, hf⟩ := Option.bind_eq_some_iff.1 hf
    obtain ⟨l, hl, hf⟩ := Option.bind_eq_some_iff.1 hf
    obtain ⟨-, rfl⟩ := Stamp.fit?_eq_some.1 hc
    obtain ⟨-, rfl⟩ := Stamp.fit?_eq_some.1 hl
    obtain ⟨-, rfl⟩ := Stamp.fit?_eq_some.1 hf
    simp only
    by_cases hlt : first + p.periodLimit * r.increment < d
    · refine .inr ⟨p.periodLimit, ?_, hlt, by rw [if_pos hlt]⟩
      unfold Paging.periodLimit
      omega
    · exact .inl (by rw [if_neg hlt])

theorem sorted_decoded_gathered (hasc : Ascending items) (hg : Gathers r p items after g) :
    Period.Sorted (Bucket.decoded r.device r.granularity g.items) := by
  rw [hg.items_eq]
  exact Bucket.sorted_decoded ((RangeRead.pairwise_select hasc _).filter _)

theorem start_lt_of_gathered (hr : r.Bounded) (hg : Gathers r p items after g) :
    ∀ c ∈ Bucket.decoded r.device r.granularity g.items, c.start < Stamp.greatest := by
  have hb := bucketMillis_pos r
  have hle := hr.le_greatest
  rw [hg.items_eq, wanted_eq, Bucket.decoded_filter (· < g.stop),
    Bucket.decoded_filter fun s => _ ≤ s ∧ s ≤ r.stop - r.bucketMillis]
  intro c hc
  have := of_decide_eq_true (List.mem_filter.1 (List.mem_filter.1 hc).1).2
  omega

/-- The periods that a page shows, up to its stop. -/
theorem distribute_gathered (hr : r.Bounded) (hL : Listable r items) (hR : Resumes r first after)
    (hg : Gathers r p items after g) (hle : stop ≤ g.stop)
    (hd : stop < r.stop → r.increment ∣ stop - first) :
    Period.distribute r.increment first stop (Bucket.decoded r.device r.granularity g.items) =
      (Period.starts r.increment first stop).map (Period.holding r.increment (listed r items)) := by
  have hstop := hg.stop_le
  have hgr := hr.le_greatest
  rw [Period.distribute_eq hr.increment_pos (by omega) (sorted_decoded_gathered hL.ascending hg)
    (start_lt_of_gathered hr hg)]
  exact List.map_congr_left fun t ht => holding_gathered hr hR hg hle hd ht

theorem mapM_gathered (hL : Listable r items) (hg : Gathers r p items after g) :
    g.items.mapM (Bucket.ofItem r.device r.granularity) =
      .ok (Bucket.decoded r.device r.granularity g.items) := by
  refine Bucket.mapM_ofItem ?_
  rw [hg.items_eq]
  intro i hi
  obtain ⟨him, hip, -⟩ := mem_wanted (List.mem_filter.1 hi).1
  exact hL.readable i him hip

theorem pageOf_eq (hL : Listable r items) (hg : Gathers r p items after g) :
    pageOf r p first g = .ok {
      results := Period.distribute r.increment first (pageStop r p first g.stop).1
        (Bucket.decoded r.device r.granularity g.items)
      token := (resumeKey? r g (pageStop r p first g.stop).1 (pageStop r p first g.stop).2).map
        Token.encode } := by
  unfold pageOf
  rw [mapM_gathered hL hg]
  rfl

/-- A full page: it stops before its data does, and resumes right before its stop. -/
theorem shows_full (hr : r.Bounded) (hL : Listable r items) (hR : Resumes r first after)
    (hg : Gathers r p items after g) {n : Int} (hn : 1 ≤ n) (hlt : first + n * r.increment < g.stop) :
    Shows r p items after first (first + n * r.increment) {
      results := Period.distribute r.increment first (first + n * r.increment)
        (Bucket.decoded r.device r.granularity g.items)
      token := some (Token.encode ⟨r.partition, first + n * r.increment - 1⟩) } := by
  have hi := hr.increment_pos
  have hstop := hg.stop_le
  have hsf := start_le_first hi hR
  have hmul : r.increment ≤ n * r.increment := by
    have := Int.mul_le_mul_of_nonneg_right hn (Int.le_of_lt hi)
    rwa [Int.one_mul] at this
  have hdf : r.increment ∣ first + n * r.increment - first := ⟨n, by rw [Int.mul_comm]; omega⟩
  have hR' : Resumes r (first + n * r.increment) (some ⟨r.partition, first + n * r.increment - 1⟩) := by
    refine ⟨rfl, ?_, ?_, eq_nextBoundary hi ?_ ?_ ?_⟩
    · show r.start ≤ first + n * r.increment - 1
      omega
    · show first + n * r.increment - 1 < r.stop
      omega
    · rw [show first + n * r.increment - r.start = first + n * r.increment - first + (first - r.start) by
        omega]
      exact Int.dvd_add hdf (dvd_first_sub hR)
    · show first + n * r.increment - 1 < first + n * r.increment
      omega
    · show first + n * r.increment ≤ first + n * r.increment - 1 + r.increment
      omega
  refine ⟨by omega, by omega, distribute_gathered hr hL hR hg (by omega) fun _ => hdf,
    fun h => absurd h (by simp), ?_, fun _ => by omega⟩
  intro t ht
  refine ⟨by omega, _, (Option.some.inj ht).symm, hR', ?_, ?_⟩
  · intro j hj
    have := least_some (p := p) hR hr.le_greatest j hj
    have := least_le_first (p := p) hi hR hr.le_greatest
    show j.sort < first + n * r.increment - 1
    omega
  · intro i hmem
    have hl : ((query r p (r.stop - r.bucketMillis)).resumed
        (some ⟨r.partition, first + n * r.increment - 1⟩)).least ≤ i.key.sort :=
      (RangeRead.mem_select.1 hmem).2.2.1
    rw [least_some (p := p) hR' hr.le_greatest _ rfl] at hl
    simp only at hl
    omega

theorem lt_of_mem_wanted (hR : Resumes r first after) (hstop : r.stop ≤ Stamp.greatest) {i : Item}
    (hi : i ∈ wanted r p after items) : ∀ j ∈ after, j.sort < i.key.sort := by
  intro j hj
  have := (RangeRead.mem_select.1 hi).2.2.1
  rw [least_some hR hstop j hj] at this
  omega

/-- Where the data stops inside the listing, its last item is the place to resume at. -/
theorem exists_last_of_stop_lt (hr : r.Bounded) (hL : Listable r items)
    (hg : Gathers r p items after g) (hlt : g.stop < r.stop) :
    ∃ last, g.items.getLast? = some last ∧ last ∈ wanted r p after items ∧
      Resumes r g.stop (some last.key) ∧ Clear r p items g.stop (some last.key) := by
  have hb := bucketMillis_pos r
  obtain ⟨-, last, hlast, hbound⟩ := hg.at_boundary hlt
  have hmem := List.mem_of_getLast? hlast
  rw [hg.items_eq] at hmem
  have hw := (List.mem_filter.1 hmem).1
  obtain ⟨-, hp, hs, hu⟩ := mem_wanted hw
  have hR' : Resumes r g.stop (some last.key) := ⟨hp, hs, by omega, hbound⟩
  refine ⟨last, hlast, hw, hR', fun i hi => Int.not_lt.1 fun hlt' => ?_⟩
  -- an item between the last one and the stop would have been gathered
  have hli := lt_of_mem_wanted hR' hr.le_greatest hi _ rfl
  obtain ⟨him, hip, -, hiu⟩ := mem_wanted hi
  have hll := (RangeRead.mem_select.1 hw).2.2.1
  have hig : i ∈ g.items := by
    rw [hg.items_eq]
    exact List.mem_filter.2 ⟨RangeRead.mem_select.2 ⟨him, hip, by omega, hiu⟩, decide_eq_true hlt'⟩
  have hasc : g.items.Pairwise fun a b => a.key.sort < b.key.sort := by
    rw [hg.items_eq]
    exact (RangeRead.pairwise_select hL.ascending _).filter _
  have := sort_le_of_getLast? hasc hlast i hig
  omega

/-- The data of a page does not stop before its first period. -/
theorem first_le_stop (hr : r.Bounded) (hR : Resumes r first after) (hf : first < r.stop)
    (hg : Gathers r p items after g) : first ≤ g.stop := by
  have hi := hr.increment_pos
  have hstop := hg.stop_le
  by_cases hlt : g.stop < r.stop
  · obtain ⟨-, last, hlast, hbound⟩ := hg.at_boundary hlt
    have hmem := List.mem_of_getLast? hlast
    rw [hg.items_eq] at hmem
    have hw := (List.mem_filter.1 hmem).1
    have hn : last.key.sort < nextBoundary r.start r.increment last.key.sort := lt_nextBoundary hi
    cases after with
    | none =>
      have := (mem_wanted hw).2.2.1
      rw [show first = r.start from hR]
      omega
    | some k =>
      rw [hR.2.2.2, hbound]
      exact nextBoundary_mono hi (Int.le_of_lt (lt_of_mem_wanted hR hr.le_greatest hw k rfl))
  · omega

/-- A page that is not full: it stops where its data does, and resumes after its last item. -/
theorem shows_uncut (hr : r.Bounded) (hL : Listable r items) (hR : Resumes r first after)
    (hf : first < r.stop) (hg : Gathers r p items after g) :
    Shows r p items after first g.stop {
      results := Period.distribute r.increment first g.stop
        (Bucket.decoded r.device r.granularity g.items)
      token := (resumeKey? r g g.stop false).map Token.encode } := by
  have hi := hr.increment_pos
  have hstop := hg.stop_le
  have hfirst := first_le_stop hr hR hf hg
  have hd : g.stop < r.stop → r.increment ∣ g.stop - first := by
    intro hlt
    obtain ⟨last, -, -, hR', -⟩ := exists_last_of_stop_lt hr hL hg hlt
    rw [show g.stop - first = g.stop - r.start - (first - r.start) by omega]
    exact Int.dvd_sub (dvd_first_sub hR') (dvd_first_sub hR)
  have hresults := distribute_gathered hr hL hR hg (Int.le_refl g.stop) hd
  by_cases hlt : g.stop < r.stop
  · obtain ⟨last, hlast, hw, hR', hclear'⟩ := exists_last_of_stop_lt hr hL hg hlt
    have hmore := (hg.at_boundary hlt).1
    have hkey : resumeKey? r g g.stop false = some last.key := by
      unfold resumeKey?
      simp [hmore, hlt, hlast]
    rw [hkey]
    refine ⟨hfirst, hstop, hresults, fun h => absurd h (by simp), fun t ht => ?_, fun hclear => ?_⟩
    · exact ⟨hlt, last.key, (Option.some.inj ht).symm, hR', lt_of_mem_wanted hR hr.le_greatest hw,
        hclear'⟩
    · have hlast_lt : last.key.sort < nextBoundary r.start r.increment last.key.sort := lt_nextBoundary hi
      have := hclear last hw
      rw [hR'.2.2.2]
      omega
  · have hkey : resumeKey? r g g.stop false = none := by
      unfold resumeKey?
      simp [hlt]
    rw [hkey]
    exact ⟨hfirst, hstop, hresults, fun _ => by omega, fun t ht => absurd ht (by simp),
      fun _ => by omega⟩

/-- A page of gathered items. -/
theorem pageOf_shows (hr : r.Bounded) (hL : Listable r items) (hR : Resumes r first after)
    (hf : first < r.stop) (hg : Gathers r p items after g) :
    ∃ page stop, pageOf r p first g = .ok page ∧ Shows r p items after first stop page := by
  rw [pageOf_eq hL hg]
  refine ⟨_, (pageStop r p first g.stop).1, rfl, ?_⟩
  rcases pageStop_cases r p first g.stop with h | ⟨n, hn, hlt, h⟩
  · rw [h]
    exact shows_uncut hr hL hR hf hg
  · rw [h]
    exact shows_full hr hL hR hg hn hlt

/-! ## Pages of requests -/

theorem check_eq_ok :
    r.check = .ok () ↔ 0 < r.increment ∧ r.bucketMillis ∣ r.increment ∧ r.start < r.stop := by
  unfold Request.check
  by_cases hi : r.increment ≤ 0 ∨ r.increment % r.bucketMillis ≠ 0
  · rw [if_pos hi]
    refine ⟨fun h => absurd h (by simp), fun ⟨hpos, hd, _⟩ => ?_⟩
    have := Int.emod_eq_zero_of_dvd hd
    omega
  · have hd : r.bucketMillis ∣ r.increment := Int.dvd_of_emod_eq_zero (by omega)
    rw [if_neg hi]
    by_cases hs : r.stop ≤ r.start
    · rw [if_pos hs]
      exact ⟨fun h => absurd h (by simp), fun h => absurd h.2.2 (Int.not_lt.2 hs)⟩
    · rw [if_neg hs]
      exact ⟨fun _ => ⟨by omega, hd, by omega⟩, fun _ => rfl⟩

theorem partition_of_decode {partition token : String} {key : Key}
    (h : Token.decode partition token = .ok key) : key.partition = partition := by
  unfold Token.decode at h
  split at h
  · exact absurd h (by simp)
  · split at h
    · exact absurd h (by simp)
    next k _ =>
    by_cases hk : k.partition = partition
    · rw [if_pos hk] at h
      rw [← Except.ok.inj h, hk]
    · rw [if_neg hk] at h
      exact absurd h (by simp)

theorem resumeAt_eq_ok {r : Request} {position boundary : Int} (h : r.resumeAt position = .ok boundary) :
    r.start ≤ position ∧ position < r.stop ∧
      boundary = nextBoundary r.start r.increment position ∧ Stamp.Fits boundary := by
  unfold Request.resumeAt at h
  by_cases hin : position < r.start ∨ r.stop ≤ position
  · rw [if_pos hin] at h
    exact absurd h (by simp)
  · rw [if_neg hin] at h
    cases hb : boundaryAfter? r.start r.increment position with
    | none =>
      rw [hb] at h
      exact absurd h (by simp)
    | some u =>
      rw [hb] at h
      obtain ⟨-, hu, hfits⟩ := boundaryAfter?_eq_some hb
      obtain rfl := Except.ok.inj h
      exact ⟨by omega, by omega, hu, hfits⟩

theorem resumes_of_resume {r : Request} {token : Option String}
    (h : ({ r with token } : Request).resume = .ok (after, first)) : Resumes r first after := by
  unfold Request.resume at h
  cases token with
  | none =>
    obtain ⟨rfl, rfl⟩ := Prod.mk.inj (Except.ok.inj h)
    rfl
  | some token =>
    obtain ⟨key, hk, h⟩ := bind_eq_ok.1 h
    obtain ⟨boundary, hb, h⟩ := bind_eq_ok.1 h
    obtain ⟨rfl, rfl⟩ := Prod.mk.inj (Except.ok.inj h)
    obtain ⟨hs, hlt, hfirst, -⟩ := resumeAt_eq_ok hb
    exact ⟨partition_of_decode hk, hs, hlt, hfirst⟩

/-- What is read for a page does not depend on its token but through the key to resume after. -/
theorem readBuckets_token (b : Backend σ) (r : Request) (token : Option String) :
    readBuckets b { r with token } p = readBuckets b r p := rfl

theorem pageOf_token (r : Request) (token : Option String) :
    pageOf { r with token } p = pageOf r p := rfl

/-- A request that has no period left to show is answered without a look at the store. -/
theorem page_of_stop_le (hcheck : r.check = .ok ()) (hresume : r.resume = .ok (after, first))
    (hf : r.stop ≤ first) (desk : Desk σ) : page b p r desk = (.ok {}, desk) := by
  unfold page pageBy
  rw [hcheck, hresume]
  simp only [Desk.check, pure_bind, hf, if_true]
  rfl

/-- No bucket starts so early that it ends by the end of the listing. -/
theorem page_too_early (hcheck : r.check = .ok ()) (hresume : r.resume = .ok (after, first))
    (hf : first < r.stop) (h : r.stop - r.bucketMillis < Stamp.least) (desk : Desk σ) :
    page b p r desk = (.error (.request (.tooEarly r.stop)), desk) := by
  have hfit : Stamp.fit? (r.stop - r.bucketMillis) = none :=
    Stamp.fit?_eq_none.2 fun hfits => absurd hfits.1 (Int.not_le.2 h)
  have hrefused : r.lastBucket = .error (.tooEarly r.stop) := by
    unfold Request.lastBucket
    rw [hfit]
  unfold page pageBy
  rw [hcheck, hresume, hrefused]
  simp only [Desk.check, pure_bind, Int.not_le.2 hf, if_false]
  rfl

/-- An accepted request ends with the page of what is gathered for it, or the store fails it. -/
theorem page_gathers (hS : Serves b I E items) (hr : r.Bounded) (hL : Listable r items)
    (hcheck : r.check = .ok ()) (token : Option String)
    (hresume : ({ r with token } : Request).resume = .ok (after, first)) (hf : first < r.stop)
    (hlast : Stamp.least ≤ r.stop - r.bucketMillis) {desk : Desk σ} (hI : I desk.store) :
    Ends (fun d : Desk σ => I d.store) (fun f => ∃ e, f = .store e ∧ E e)
      (fun pg => ∃ g, Gathers r p items after g ∧ pageOf r p first g = .ok pg)
      (page b p { r with token } desk) := by
  have hb := bucketMillis_pos r
  have hle := hr.le_greatest
  have hlastBucket : ({ r with token } : Request).lastBucket = .ok (r.stop - r.bucketMillis) := by
    show r.lastBucket = _
    unfold Request.lastBucket
    rw [Stamp.fit?_eq_some.2 ⟨⟨hlast, by omega⟩, rfl⟩]
  unfold page pageBy
  rw [show ({ r with token } : Request).check = .ok () from hcheck, hresume, hlastBucket,
    readBuckets_token, pageOf_token r token]
  refine Ends.bind (Q := fun _ => True) ⟨hI, trivial⟩ fun _ d hd _ => ?_
  refine Ends.bind (Q := fun x => x = (after, first)) ⟨hd, rfl⟩ ?_
  rintro _ d' hd' rfl
  simp only [Int.not_le.2 hf, if_false]
  refine Ends.bind (Q := fun x => x = r.stop - r.bucketMillis) ⟨hd', rfl⟩ ?_
  rintro _ d'' hd'' rfl
  refine Ends.bind (readBuckets_ends hS hL.ascending hL.aligned hr.increment_pos hr.least_le
    hr.le_greatest hd'') fun g d₃ hd₃ hg => ?_
  have hpage : pageOf r p first g = .ok _ := pageOf_eq hL hg
  rw [hpage]
  exact ⟨hd₃, g, hg, hpage⟩

/-- An accepted request ends with a page that shows its periods, or the store fails it. -/
theorem page_ends (hS : Serves b I E items) (hr : r.Bounded) (hL : Listable r items)
    (hcheck : r.check = .ok ()) (token : Option String)
    (hresume : ({ r with token } : Request).resume = .ok (after, first)) (hf : first < r.stop)
    (hlast : Stamp.least ≤ r.stop - r.bucketMillis) {desk : Desk σ} (hI : I desk.store) :
    Ends (fun d : Desk σ => I d.store) (fun f => ∃ e, f = .store e ∧ E e)
      (fun pg => ∃ stop, Shows r p items after first stop pg) (page b p { r with token } desk) := by
  refine (page_gathers hS hr hL hcheck token hresume hf hlast hI).imp (fun _ h => h) ?_
  rintro pg ⟨g, hg, hpg⟩
  obtain ⟨pg', stop, hpg', hshows⟩ := pageOf_shows hr hL (resumes_of_resume hresume) hf hg
  obtain rfl := Except.ok.inj (hpg.symm.trans hpg')
  exact ⟨stop, hshows⟩

end Footage.Listing
