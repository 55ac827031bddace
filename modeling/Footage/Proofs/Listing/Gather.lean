import Footage.Proofs.Boundary
import Footage.Proofs.Listing.Reads

/-!
# What a page is made of

What `readBuckets` gathers comes about in one of four ways (`Gathering`). Each gives exactly the items of
the listing, after the key to resume after, up to the time at which the page's data stops
(`readBuckets_ends`). That time is the end of the listing or the boundary after the last item: where the
store's page breaks off inside a period the rest of the period is read too, and where it does not, the next
aligned bucket starts past the boundary.
-/

namespace Footage.Listing

open Footage.Task

variable {σ : Type} {b : Backend σ} {I : σ → Prop} {E : StoreError → Prop} {items : List Item}
  {r : Request} {p : Paging} {after : Option Key}

/-- The items of a listing that come after a key, in ascending order. -/
def wanted (r : Request) (p : Paging) (after : Option Key) (items : List Item) : List Item :=
  ((query r p (r.stop - r.bucketMillis)).resumed after).select items

/-- The gathered items are all that are wanted up to the stop, which is a boundary or the end. -/
structure Gathers (r : Request) (p : Paging) (items : List Item) (after : Option Key) (g : Gathered) :
    Prop where
  items_eq : g.items = (wanted r p after items).filter (·.key.sort < g.stop)
  stop_le : g.stop ≤ r.stop
  at_boundary : g.stop < r.stop → g.more = true ∧ ∃ last, g.items.getLast? = some last ∧
    g.stop = nextBoundary r.start r.increment last.key.sort

theorem endOfPeriod_le (t : Int) : endOfPeriod r t ≤ r.stop := by
  unfold endOfPeriod
  cases boundaryAfter? r.start r.increment t with
  | none => exact Int.le_refl _
  | some u => exact Int.min_le_right _ _

theorem lt_endOfPeriod {t : Int} (ht : t < r.stop) : t < endOfPeriod r t := by
  unfold endOfPeriod
  cases hb : boundaryAfter? r.start r.increment t with
  | none => exact ht
  | some u =>
    obtain ⟨hi, rfl, -⟩ := boundaryAfter?_eq_some hb
    have : t < nextBoundary r.start r.increment t := lt_nextBoundary hi
    show t < min (nextBoundary r.start r.increment t) r.stop
    omega

theorem endOfPeriod_eq {t : Int} (h : endOfPeriod r t < r.stop) :
    endOfPeriod r t = nextBoundary r.start r.increment t := by
  unfold endOfPeriod at *
  cases hb : boundaryAfter? r.start r.increment t with
  | none =>
    rw [hb] at h
    exact absurd h (Int.lt_irrefl _)
  | some u =>
    obtain ⟨-, rfl, -⟩ := boundaryAfter?_eq_some hb
    rw [hb] at h
    have h : min (nextBoundary r.start r.increment t) r.stop < r.stop := h
    show min (nextBoundary r.start r.increment t) r.stop = _
    omega

theorem mem_wanted {i : Item} (h : i ∈ wanted r p after items) :
    i ∈ items ∧ i.key.partition = r.partition ∧ r.start ≤ i.key.sort ∧
      i.key.sort ≤ r.stop - r.bucketMillis := by
  obtain ⟨hi, hp, hl, hu⟩ := RangeRead.mem_select.1 h
  exact ⟨hi, hp, Int.le_trans (RangeRead.lower_le_least _) hl, hu⟩

theorem bucketMillis_pos (r : Request) : 0 < r.bucketMillis := r.granularity.millis_pos

theorem filter_wanted_self {is : List Item} (h : ∀ i ∈ is, i.key.sort ≤ r.stop - r.bucketMillis) :
    is.filter (·.key.sort < r.stop) = is := by
  have hb := bucketMillis_pos r
  refine List.filter_eq_self.2 fun i hi => ?_
  have := h i hi
  rw [decide_eq_true_eq]
  omega

/-- Buckets of the partition start at multiples of their length. -/
def BucketAligned (r : Request) (items : List Item) : Prop :=
  ∀ i ∈ items, i.key.partition = r.partition → r.granularity.Aligned i.key.sort

/-- The next bucket starts at least a bucket's length later. -/
theorem add_bucketMillis_le {i j : Item} (ha : BucketAligned r items) (hi : i ∈ wanted r p after items)
    (hj : j ∈ wanted r p after items) (h : i.key.sort < j.key.sort) :
    i.key.sort + r.bucketMillis ≤ j.key.sort := by
  obtain ⟨hi, hip, -⟩ := mem_wanted hi
  obtain ⟨hj, hjp, -⟩ := mem_wanted hj
  have hai : r.granularity.millis ∣ i.key.sort := Int.dvd_of_emod_eq_zero (ha i hi hip)
  have haj : r.granularity.millis ∣ j.key.sort := Int.dvd_of_emod_eq_zero (ha j hj hjp)
  have := Int.le_of_dvd (by omega) (Int.dvd_sub haj hai)
  show i.key.sort + r.granularity.millis ≤ j.key.sort
  omega

/-- The end of the period of the last bucket is also that of every later bucket before it. -/
theorem endOfPeriod_eq_of_le (hi : 0 < r.increment) {t u : Int} (h : endOfPeriod r t < r.stop)
    (htu : t ≤ u) (hu : u < endOfPeriod r t) :
    endOfPeriod r t = nextBoundary r.start r.increment u := by
  have ht := endOfPeriod_eq h
  have hle : nextBoundary r.start r.increment t ≤ t + r.increment := nextBoundary_le hi
  refine eq_nextBoundary hi ?_ hu (by omega)
  rw [ht]
  exact dvd_nextBoundary_sub

section

variable {page : RangePage} {left : List Item} {last : Item}

theorem le_last (hasc : Ascending items)
    (hans : Answers items ((query r p (r.stop - r.bucketMillis)).resumed after) page left)
    (hlast : page.items.getLast? = some last) : ∀ i ∈ page.items, i.key.sort ≤ last.key.sort := by
  have hpw := RangeRead.pairwise_select hasc ((query r p (r.stop - r.bucketMillis)).resumed after)
  rw [hans.select_eq] at hpw
  exact sort_le_of_getLast? (List.pairwise_append.1 hpw).1 hlast

/-- What a page leaves and is still before the end of its last period is what the second loop reads. -/
theorem filter_left_eq (hstop : r.stop ≤ Stamp.greatest)
    (hans : Answers items ((query r p (r.stop - r.bucketMillis)).resumed after) page left)
    {key : Key} (hk : key ∈ page.next) (stop : Int) :
    left.filter (·.key.sort < stop) =
      ((query r p (min (stop - 1) (r.stop - r.bucketMillis))).resumed (some key)).select items := by
  have hb := bucketMillis_pos r
  rw [← hans.select_resumed (by show r.stop - r.bucketMillis < _; omega) hk, RangeRead.resumed_resumed]
  unfold RangeRead.select
  rw [List.filter_filter]
  refine List.filter_congr fun i _ => ?_
  rw [← Bool.decide_and]
  refine decide_eq_decide.2 ?_
  show i.key.sort < stop ∧ i.key.partition = r.partition ∧ _ ≤ i.key.sort ∧
      i.key.sort ≤ r.stop - r.bucketMillis ↔
    i.key.partition = r.partition ∧ _ ≤ i.key.sort ∧ i.key.sort ≤ min (stop - 1) (r.stop - r.bucketMillis)
  constructor
  · rintro ⟨hs, hp, hl, hu⟩
    exact ⟨hp, hl, by omega⟩
  · rintro ⟨hp, hl, hu⟩
    exact ⟨by omega, hp, hl, by omega⟩

/-- A page with the rest of its last period. -/
theorem gathers_of_spill (hi : 0 < r.increment) (hasc : Ascending items) (hstop : r.stop ≤ Stamp.greatest)
    (hans : Answers items ((query r p (r.stop - r.bucketMillis)).resumed after) page left)
    {key : Key} (hk : key ∈ page.next) (hlast : page.items.getLast? = some last) :
    Gathers r p items after ⟨page.items ++
      ((query r p (min (endOfPeriod r last.key.sort - 1) (r.stop - r.bucketMillis))).resumed
        (some key)).select items, endOfPeriod r last.key.sort, true⟩ := by
  have hb := bucketMillis_pos r
  have hle := le_last hasc hans hlast
  have hmem : last ∈ page.items := List.mem_of_getLast? hlast
  have hw : wanted r p after items = page.items ++ left := hans.select_eq
  have hlt : last.key.sort < endOfPeriod r last.key.sort := by
    have := (mem_wanted (hw ▸ List.mem_append_left _ hmem)).2.2.2
    exact lt_endOfPeriod (by omega)
  have hall : page.items.filter (·.key.sort < endOfPeriod r last.key.sort) = page.items := by
    refine List.filter_eq_self.2 fun i hi => ?_
    have := hle i hi
    rw [decide_eq_true_eq]
    omega
  have heq : page.items ++ ((query r p (min (endOfPeriod r last.key.sort - 1)
      (r.stop - r.bucketMillis))).resumed (some key)).select items =
      (wanted r p after items).filter (·.key.sort < endOfPeriod r last.key.sort) := by
    rw [hw, List.filter_append, hall, ← filter_left_eq hstop hans hk]
  refine ⟨heq, endOfPeriod_le _, fun hend => ⟨rfl, ?_⟩⟩
  obtain ⟨last', hlast'⟩ : ∃ last', (page.items ++ ((query r p (min (endOfPeriod r last.key.sort - 1)
      (r.stop - r.bucketMillis))).resumed (some key)).select items).getLast? = some last' := by
    rw [← Option.isSome_iff_exists, List.getLast?_isSome]
    exact fun h => by simp [List.append_eq_nil_iff.1 h |>.1] at hmem
  refine ⟨last', hlast', endOfPeriod_eq_of_le hi hend ?_ ?_⟩
  · -- the last item of all is not before the last one of the page
    refine sort_le_of_getLast? ?_ hlast' last (List.mem_append_left _ hmem)
    rw [heq]
    exact (RangeRead.pairwise_select hasc _).filter _
  · have := List.mem_of_getLast? hlast'
    rw [heq] at this
    exact of_decide_eq_true (List.mem_filter.1 this).2

/-- A page at whose end the next aligned bucket starts past the boundary. -/
theorem gathers_of_aligned (hasc : Ascending items) (ha : BucketAligned r items)
    (hans : Answers items ((query r p (r.stop - r.bucketMillis)).resumed after) page left)
    (hlast : page.items.getLast? = some last)
    (hfit : endOfPeriod r last.key.sort ≤ last.key.sort + r.bucketMillis) :
    Gathers r p items after ⟨page.items, endOfPeriod r last.key.sort, true⟩ := by
  have hb := bucketMillis_pos r
  have hle := le_last hasc hans hlast
  have hmem : last ∈ page.items := List.mem_of_getLast? hlast
  have hw : wanted r p after items = page.items ++ left := hans.select_eq
  have hlw : last ∈ wanted r p after items := hw ▸ List.mem_append_left _ hmem
  have hlt : last.key.sort < endOfPeriod r last.key.sort := by
    have := (mem_wanted hlw).2.2.2
    exact lt_endOfPeriod (by omega)
  refine ⟨?_, endOfPeriod_le _, fun hend => ⟨rfl, last, hlast, endOfPeriod_eq hend⟩⟩
  rw [hw, List.filter_append, List.filter_eq_self.2, List.filter_eq_nil_iff.2, List.append_nil]
  · intro i hi
    have hpw := RangeRead.pairwise_select hasc ((query r p (r.stop - r.bucketMillis)).resumed after)
    rw [hans.select_eq] at hpw
    have hlast_lt := (List.pairwise_append.1 hpw).2.2 last hmem i hi
    have := add_bucketMillis_le ha hlw (hw ▸ List.mem_append_right _ hi) hlast_lt
    rw [decide_eq_true_eq]
    show ¬ i.key.sort < endOfPeriod r last.key.sort
    omega
  · intro i hi
    have := hle i hi
    rw [decide_eq_true_eq]
    show i.key.sort < endOfPeriod r last.key.sort
    omega

/-- The last page of the store. -/
theorem gathers_of_last
    (hans : Answers items ((query r p (r.stop - r.bucketMillis)).resumed after) page left)
    (hnext : page.next = none) : Gathers r p items after ⟨page.items, r.stop, false⟩ := by
  have hw : wanted r p after items = page.items := by
    rw [wanted, hans.select_eq, hans.complete hnext, List.append_nil]
  refine ⟨?_, Int.le_refl _, fun h => absurd h (Int.lt_irrefl _)⟩
  rw [hw]
  exact (filter_wanted_self fun i hi => (mem_wanted (hw ▸ hi)).2.2.2).symm

end

/-- A listing shorter than a bucket has no items. -/
theorem gathers_nil (h : r.stop - r.bucketMillis < r.start) :
    Gathers r p items after ⟨[], r.stop, false⟩ := by
  refine ⟨?_, Int.le_refl _, fun h => absurd h (Int.lt_irrefl _)⟩
  have hw : wanted r p after items = [] := by
    refine List.eq_nil_iff_forall_not_mem.2 fun i hi => ?_
    obtain ⟨-, -, hl, hu⟩ := mem_wanted hi
    omega
  rw [hw]
  rfl

/-- How the items of a page are gathered: none, all of a last page, a page with the rest of its last
period, or a page that ends with a period. -/
inductive Gathering (r : Request) (p : Paging) (items : List Item) (after : Option Key) : Gathered → Prop
  | none (h : r.stop - r.bucketMillis < r.start) : Gathering r p items after ⟨[], r.stop, false⟩
  | final {page left}
      (hans : Answers items ((query r p (r.stop - r.bucketMillis)).resumed after) page left)
      (hnext : page.next = none) : Gathering r p items after ⟨page.items, r.stop, false⟩
  | spilled {page left key last}
      (hans : Answers items ((query r p (r.stop - r.bucketMillis)).resumed after) page left)
      (hk : key ∈ page.next) (hlast : page.items.getLast? = some last) :
      Gathering r p items after ⟨page.items ++
        ((query r p (min (endOfPeriod r last.key.sort - 1) (r.stop - r.bucketMillis))).resumed
          (some key)).select items, endOfPeriod r last.key.sort, true⟩
  | aligned {page left last}
      (hans : Answers items ((query r p (r.stop - r.bucketMillis)).resumed after) page left)
      (hlast : page.items.getLast? = some last)
      (hfit : endOfPeriod r last.key.sort ≤ last.key.sort + r.bucketMillis) :
      Gathering r p items after ⟨page.items, endOfPeriod r last.key.sort, true⟩

theorem readBuckets_gathering (hS : Serves b I E items) (hstart : Stamp.least ≤ r.start)
    (hstop : r.stop ≤ Stamp.greatest) {desk : Desk σ} (hI : I desk.store) :
    Ends (fun d : Desk σ => I d.store) (fun f => ∃ e, f = .store e ∧ E e) (Gathering r p items after)
      (readBuckets b r p (r.stop - r.bucketMillis) after desk) := by
  have hb := bucketMillis_pos r
  unfold readBuckets
  by_cases hlt : r.stop - r.bucketMillis < r.start
  · simp only [hlt, if_true]
    exact Ends.pure hI (.none hlt)
  · simp only [hlt, if_false]
    refine Ends.bind (Q := fun n => ahead ((query r p (r.stop - r.bucketMillis)).resumed after) < n)
      ⟨hI, ahead_lt_readsOf hstart _ _⟩ fun n d hd hn => ?_
    refine Ends.bind (Desk.ends_onStore (firstPage_ends hS (by show r.stop - r.bucketMillis < _; omega)
      hd hn) fun e he => ⟨e, rfl, he⟩) ?_
    rintro page d' hd' ⟨⟨left, hans⟩, hempty⟩
    rcases hnext : page.next with _ | key
    · exact Ends.pure hd' (.final hans hnext)
    · rcases hlast : page.items.getLast? with _ | last
      · rw [hempty (List.getLast?_eq_none_iff.1 hlast)] at hnext
        exact absurd hnext (by simp)
      · have hk : key ∈ page.next := Option.mem_def.2 hnext
        simp only
        by_cases hfit : last.key.sort + r.bucketMillis < endOfPeriod r last.key.sort
        · simp only [hfit, if_true]
          refine Ends.bind (Q := fun n => ahead ((query r p (min (endOfPeriod r last.key.sort - 1)
            (r.stop - r.bucketMillis))).resumed (some key)) < n)
            ⟨hd', ahead_lt_readsOf hstart _ _⟩ fun n d'' hd'' hn => ?_
          refine Ends.bind (Desk.ends_onStore (remaining_ends hS ?_ hd'' hn) fun e he => ⟨e, rfl, he⟩) ?_
          · show min (endOfPeriod r last.key.sort - 1) (r.stop - r.bucketMillis) < _
            omega
          · rintro rest d₃ hd₃ rfl
            exact Ends.pure hd₃ (.spilled hans hk hlast)
        · simp only [hfit, if_false]
          exact Ends.pure hd' (.aligned hans hlast (by omega))

theorem Gathering.gathers {g : Gathered} (h : Gathering r p items after g) (hasc : Ascending items)
    (ha : BucketAligned r items) (hi : 0 < r.increment) (hstop : r.stop ≤ Stamp.greatest) :
    Gathers r p items after g := by
  cases h with
  | none h => exact gathers_nil h
  | final hans hnext => exact gathers_of_last hans hnext
  | spilled hans hk hlast => exact gathers_of_spill hi hasc hstop hans hk hlast
  | aligned hans hlast hfit => exact gathers_of_aligned hasc ha hans hlast hfit

theorem readBuckets_ends (hS : Serves b I E items) (hasc : Ascending items) (ha : BucketAligned r items)
    (hi : 0 < r.increment) (hstart : Stamp.least ≤ r.start) (hstop : r.stop ≤ Stamp.greatest)
    {desk : Desk σ} (hI : I desk.store) :
    Ends (fun d : Desk σ => I d.store) (fun f => ∃ e, f = .store e ∧ E e) (Gathers r p items after)
      (readBuckets b r p (r.stop - r.bucketMillis) after desk) :=
  (readBuckets_gathering hS hstart hstop hI).imp (fun _ he => he) fun _ h => h.gathers hasc ha hi hstop

end Footage.Listing
