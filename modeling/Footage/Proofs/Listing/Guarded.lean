import Footage.Proofs.Listing.Density

/-!
# Arithmetic of a listing

Most sums and differences of a listing are formed only where they fit a stored number. A few are formed
without a look at their range, and what keeps them in it is settled elsewhere. `Guarded` has the listing once
more with a test before each of these: a task that stops at the first operation that leaves its range, and
names it.

1. A table is asked only for ranges that are not reversed (`read_eq`).
2. The last item of a page starts a bucket's length before the end, and its period stops after it
   (`within_of_wanted`). The reads that complete the period are fewer than can be counted (`remaining_eq`).
3. All the gathered buckets hold no more than the listing is long, which fits the sums of a period
   (`video_gathered_le`). A period stops after it starts, since the listing ends by the greatest stored number
   (`distribute_eq_ok`).
4. A full page stops after its first period and before the end (`pageOf_eq_ok`).

So no test ever fails, and the task with the tests is the one without (`page_in_range`).
-/

namespace Footage

open Footage.Task

/-- The operations of a listing whose result is not checked. -/
inductive Operation
  /-- The remainder of the increment by the length of a bucket. -/
  | remainder
  /-- The number of increments up to a position. -/
  | quotient
  /-- The part of a sorted table between two keys. -/
  | range
  /-- The end of the last bucket of a page. -/
  | bucketEnd
  /-- The time before the end of the period in which that bucket starts. -/
  | beforePeriodEnd
  /-- One more read for that period. -/
  | count
  /-- The step to the next period, which is to get further. -/
  | nextPeriod
  /-- The sums of a period. -/
  | sum
  /-- The time before the stop of a full page. -/
  | beforeStop
  deriving DecidableEq, Repr

/-- A task that stops at an operation that leaves its range. -/
abbrev Guarded (σ ε : Type) := ExceptT ε (StateT σ (Except Operation))

namespace Guarded

variable {σ ε α β : Type}

/-- A task without such operations. -/
def lift (t : Task σ ε α) : Guarded σ ε α := fun s => .ok (t s)

/-- Stop at the operation unless the condition holds. -/
def ensure (o : Operation) (c : Prop) [Decidable c] : Guarded σ ε Unit := fun s =>
  if c then .ok (.ok (), s) else .error o

/-- A result that may have been stopped. -/
def ofResult (x : Except Operation α) : Guarded σ ε α := fun s => x.map fun a => (.ok a, s)

/-- A step on the store. -/
def onStore (t : Guarded σ StoreError α) : Guarded (Desk σ) Failure α := fun desk =>
  (t desk.store).map fun
    | (.ok a, store) => (.ok a, { desk with store })
    | (.error e, store) => (.error (.store e), { desk with store })

theorem bind_apply (t : Guarded σ ε α) (f : α → Guarded σ ε β) (s : σ) :
    (t >>= f) s = match t s with
      | .ok (.ok a, s) => f a s
      | .ok (.error e, s) => .ok (.error e, s)
      | .error o => .error o := by
  show (t s >>= fun (r, s) => ExceptT.bindCont f r s) = _
  rcases t s with o | ⟨e | a, s⟩ <;> rfl

theorem ensure_bind {o : Operation} {c : Prop} [Decidable c] (hc : c) (f : Unit → Guarded σ ε β) (s : σ) :
    (ensure o c >>= f) s = f () s := by
  rw [bind_apply]
  unfold ensure
  rw [if_pos hc]

theorem ofResult_bind {x : Except Operation α} {a : α} (hx : x = .ok a) (f : α → Guarded σ ε β) (s : σ) :
    (ofResult x >>= f) s = f a s := by
  rw [bind_apply, hx]
  rfl

/-- Tasks that do not stop make up a task that does not. What follows the first has to be shown only for the
values and states in which that may end. -/
theorem bind_eq {t : Task σ ε α} {f : α → Task σ ε β} {t' : Guarded σ ε α} {f' : α → Guarded σ ε β} {s : σ}
    {I : σ → Prop} {E : ε → Prop} {Q : α → Prop} (ht : t' s = .ok (t s)) (hends : Ends I E Q (t s))
    (hf : ∀ a s', I s' → Q a → f' a s' = .ok (f a s')) : (t' >>= f') s = .ok ((t >>= f) s) := by
  rw [bind_apply, Task.bind_apply, ht]
  generalize t s = outcome at hends
  obtain ⟨r, s'⟩ := outcome
  cases r with
  | error e => rfl
  | ok a => exact hf a s' hends.1 hends.2

theorem bind_eq_of_forall {t : Task σ ε α} {f : α → Task σ ε β} {t' : Guarded σ ε α}
    {f' : α → Guarded σ ε β} {s : σ} (ht : t' s = .ok (t s)) (hf : ∀ a s', f' a s' = .ok (f a s')) :
    (t' >>= f') s = .ok ((t >>= f) s) := by
  refine bind_eq (I := fun _ => True) (E := fun _ => True) (Q := fun _ => True) ht ?_ fun a s' _ _ => hf a s'
  exact ⟨trivial, by split <;> trivial⟩

/-- A check changes nothing. -/
theorem check_bind {ε : Type} {wrap : ε → Failure} {x : Except ε α} {f : α → DeskTask σ β}
    {f' : α → Guarded (Desk σ) Failure β} {desk : Desk σ} (hf : ∀ a, x = .ok a → f' a desk = .ok (f a desk)) :
    (lift (Desk.check wrap x) >>= f') desk = .ok ((Desk.check wrap x >>= f) desk) := by
  cases x with
  | error e => rfl
  | ok a => exact hf a rfl

theorem onStore_eq {t : StoreTask σ α} {t' : Guarded σ StoreError α} {desk : Desk σ}
    (h : t' desk.store = .ok (t desk.store)) : onStore t' desk = .ok (Desk.onStore t desk) := by
  unfold onStore Desk.onStore
  rw [h]
  rcases t desk.store with ⟨e | a, store⟩ <;> rfl

/-! ## The store -/

/-- The part of a table between two keys, which must not be reversed. -/
def between (m : Memory) (lo hi : Key) : Except Operation (List Item) :=
  if compare lo hi = .gt then .error .range
  else .ok (m.items.filter fun i => compare lo i.key ≠ .gt ∧ compare i.key hi ≠ .gt)

/-- The page of a query. -/
def pageOfQuery (m : Memory) (q : RangeRead) : Except Operation RangePage :=
  if q.upper < q.least then .ok {}
  else do
    let matching ← between m ⟨q.partition, q.least⟩ ⟨q.partition, q.upper⟩
    match m.pageLimit q with
    | none => return { items := matching }
    | some n =>
      let items := matching.take n
      return { items, next := if items.length = n then items.getLast?.map (·.key) else none }

/-- The answer of a range read. -/
def read (q : RangeRead) : Guarded Memory StoreError RangePage := fun m =>
  let m' := { m with reads := m.reads + 1 }
  if m.faults.read then .ok (.error (.outage (.read q.partition)), m')
  else if m.faults.readsFrom.any (· ≤ m.attempt) then
    .ok (.error (.outage (.readFrom q.partition m.attempt)), m')
  else (pageOfQuery m q).map fun page => (.ok page, m')

theorem compare_ne_gt_iff {j k : Key} : compare j k ≠ .gt ↔
    compare j.partition k.partition = .lt ∨ (j.partition = k.partition ∧ j.sort ≤ k.sort) := by
  have h : compare j k = (compare j.partition k.partition).then (compare j.sort k.sort) := rfl
  rw [h]
  cases hp : compare j.partition k.partition with
  | lt => simp
  | gt =>
    have hne : j.partition ≠ k.partition := fun heq => by simp [heq] at hp
    simp [hne]
  | eq =>
    rw [Std.compare_eq_iff_eq] at hp
    simp [hp, Int.compare_eq_gt]

theorem between_iff {q : RangeRead} {k : Key} :
    compare ⟨q.partition, q.least⟩ k ≠ .gt ∧ compare k ⟨q.partition, q.upper⟩ ≠ .gt ↔ q.Covers k := by
  unfold RangeRead.Covers
  simp only [compare_ne_gt_iff]
  constructor
  · rintro ⟨hlo | ⟨hp, hl⟩, hhi | ⟨hp', hu⟩⟩
    · exact absurd (hlo.symm.trans (Std.OrientedCmp.gt_of_lt hhi)) (by simp)
    · rw [hp', Std.compare_self] at hlo
      exact absurd hlo (by simp)
    · rw [hp, Std.compare_self] at hhi
      exact absurd hhi (by simp)
    · exact ⟨hp', hl, hu⟩
  · rintro ⟨hp, hl, hu⟩
    exact ⟨.inr ⟨hp.symm, hl⟩, .inr ⟨hp, hu⟩⟩

theorem pageOfQuery_eq (m : Memory) (q : RangeRead) : pageOfQuery m q = .ok (m.page q) := by
  unfold pageOfQuery
  by_cases hlt : q.upper < q.least
  · have hnil : m.matching q = [] := by
      refine List.filter_eq_nil_iff.2 fun i _ => ?_
      rw [decide_eq_true_eq]
      rintro ⟨-, hl, hu⟩
      omega
    rw [if_pos hlt]
    unfold Memory.page
    cases hn : m.pageLimit q with
    | none => simp [hnil]
    | some n =>
      have := Memory.one_le_pageLimit hn
      simp [hnil, show ¬ 0 = n by omega]
  · have hle : compare (⟨q.partition, q.least⟩ : Key) ⟨q.partition, q.upper⟩ ≠ .gt :=
      compare_ne_gt_iff.2 (.inr ⟨rfl, Int.not_lt.1 hlt⟩)
    have hmatching : between m ⟨q.partition, q.least⟩ ⟨q.partition, q.upper⟩ = .ok (m.matching q) := by
      unfold between Memory.matching
      rw [if_neg hle]
      simp only [between_iff]
    rw [if_neg hlt, hmatching]
    unfold Memory.page
    cases m.pageLimit q <;> rfl

/-- A table is never asked for a reversed range. -/
theorem read_eq (q : RangeRead) (m : Memory) : read q m = .ok (Memory.backend.read q m) := by
  show read q m = .ok (Memory.read q m)
  unfold read Memory.read
  rw [pageOfQuery_eq]
  by_cases hr : m.faults.read
  · simp only [hr, if_true]
  · by_cases hf : m.faults.readsFrom.any (· ≤ m.attempt)
    · simp only [hr, hf, if_true, if_false, Bool.false_eq_true]
    · simp only [hr, hf, if_false, Bool.false_eq_true]
      rfl

/-! ## Reading buckets -/

variable {r : Listing.Request} {p : Paging} {m : Memory}

/-- The number is a stored one, from the start of a listing up to its end. -/
def Within (r : Listing.Request) (t : Int) : Prop := Stamp.Fits t ∧ r.start ≤ t ∧ t ≤ r.stop

instance (r : Listing.Request) (t : Int) : Decidable (Within r t) :=
  inferInstanceAs (Decidable (Stamp.Fits t ∧ r.start ≤ t ∧ t ≤ r.stop))

/-- The number is a position of a listing. -/
def IsPosition (r : Listing.Request) (t : Int) : Prop := Within r t ∧ t < r.stop

instance (r : Listing.Request) (t : Int) : Decidable (IsPosition r t) :=
  inferInstanceAs (Decidable (Within r t ∧ t < r.stop))

/-- The first page with an item, or the last page there is. -/
def firstPage (q : RangeRead) : Nat → Option Key → Guarded Memory StoreError RangePage
  | 0, _ => throw (.endless q.partition)
  | reads + 1, after => do
    let page ← read (q.resumed after)
    match page.items, page.next with
    | [], some key => firstPage q reads (some key)
    | _, _ => return page

/-- The items of all pages after a key, of which `count` have been read. -/
def remaining (q : RangeRead) (count : Nat) : Nat → Key → Guarded Memory StoreError (List Item)
  | 0, _ => throw (.endless q.partition)
  | reads + 1, after => do
    let page ← read (q.resumed (some after))
    ensure .count (count + 1 ≤ Count.greatest)
    match page.next with
    | some key => return page.items ++ (← remaining q (count + 1) reads key)
    | none => return page.items

/-- The buckets of the next page of the store, and those that complete the period of the last one. -/
def readBuckets (r : Listing.Request) (p : Paging) (lastBucket : Int) (after : Option Key) :
    Guarded (Desk Memory) Failure Listing.Gathered := do
  if lastBucket < r.start then
    return ⟨[], r.stop, false⟩
  else
    let q := Listing.query r p lastBucket
    let page ← onStore (firstPage q (← lift (Desk.readsOf Memory.backend q)) after)
    match page.next, page.items.getLast? with
    | some key, some last =>
      ensure .quotient (0 < r.increment)
      let stop := Listing.endOfPeriod r last.key.sort
      ensure .bucketEnd (Within r (last.key.sort + r.bucketMillis))
      if last.key.sort + r.bucketMillis < stop then
        ensure .beforePeriodEnd (IsPosition r (stop - 1))
        let q := Listing.query r p (min (stop - 1) lastBucket)
        let rest ← onStore (remaining q 0 (← lift (Desk.readsOf Memory.backend q)) key)
        return ⟨page.items ++ rest, stop, true⟩
      else
        return ⟨page.items, stop, true⟩
    | next, _ => return ⟨page.items, r.stop, next.isSome⟩

theorem firstPage_eq (q : RangeRead) (reads : Nat) (after : Option Key) (m : Memory) :
    firstPage q reads after m = .ok (Listing.firstPage Memory.backend q reads after m) := by
  induction reads generalizing after m with
  | zero => rfl
  | succ reads ih =>
    unfold firstPage Listing.firstPage
    refine bind_eq_of_forall (read_eq _ m) fun page m' => ?_
    rcases page.items with _ | ⟨i, is⟩
    · rcases page.next with _ | k
      · rfl
      · exact ih (some k) m'
    · rfl

/-- Every read gets further in the range, so their number stays below that of its positions. -/
theorem remaining_eq {q : RangeRead} (hu : q.upper < Stamp.greatest) {count reads : Nat} {after : Key}
    (hcount : count + 1 + Listing.ahead (q.resumed (some after)) ≤ Count.greatest) {s : Memory}
    (hs : s.rows = m.rows) :
    remaining q count reads after s = .ok (Listing.remaining Memory.backend q reads after s) := by
  induction reads generalizing count after s with
  | zero => rfl
  | succ reads ih =>
    unfold remaining Listing.remaining
    refine bind_eq (read_eq _ s) (m.serves.read (q.resumed (some after)) s hs) fun page s' hs' hpage => ?_
    obtain ⟨left, hans⟩ := hpage
    rw [ensure_bind (by omega)]
    rcases hnext : page.next with _ | k
    · rfl
    · have hless := Listing.ahead_resumed_lt hans hu (Option.mem_def.2 hnext)
      rw [RangeRead.resumed_resumed] at hless
      exact bind_eq_of_forall (ih (by omega) hs') fun _ _ => rfl

/-- The reads that complete a period can be counted, since no two of them resume at one position. -/
theorem ahead_lt_greatest {q : RangeRead} (hu : q.upper < Stamp.greatest) {k : Key}
    (hk : Stamp.least ≤ k.sort) : Listing.ahead (q.resumed (some k)) < Count.greatest := by
  have hleast : Stamp.least = -9223372036854775808 := rfl
  have hgreatest : Stamp.greatest = 9223372036854775807 := rfl
  unfold Listing.ahead Count.greatest
  show (q.upper - max (min q.lower Stamp.least) (min (k.sort + 1) Stamp.greatest) + 1).toNat < _
  omega

/-- A bucket within the range of a listing ends by its end, and the period in which it starts stops after it. -/
theorem within_of_wanted (hr : r.Bounded) {after : Option Key} {i : Item}
    (hi : i ∈ Listing.wanted r p after m.items) :
    Within r (i.key.sort + r.bucketMillis) ∧ IsPosition r (Listing.endOfPeriod r i.key.sort - 1) := by
  obtain ⟨-, -, hs, hle⟩ := Listing.mem_wanted hi
  have hb := Listing.bucketMillis_pos r
  have hleast := hr.least_le
  have hgreatest := hr.le_greatest
  have hend : i.key.sort < Listing.endOfPeriod r i.key.sort := Listing.lt_endOfPeriod (by omega)
  have hendle : Listing.endOfPeriod r i.key.sort ≤ r.stop := Listing.endOfPeriod_le _
  exact ⟨⟨⟨by omega, by omega⟩, by omega, by omega⟩, ⟨⟨by omega, by omega⟩, by omega, by omega⟩, by omega⟩

theorem readBuckets_eq {after : Option Key} (hr : r.Bounded) {desk : Desk Memory}
    (hrows : desk.store.rows = m.rows) :
    readBuckets r p (r.stop - r.bucketMillis) after desk =
      .ok (Listing.readBuckets Memory.backend r p (r.stop - r.bucketMillis) after desk) := by
  have hb := Listing.bucketMillis_pos r
  have hleast := hr.least_le
  have hgreatest := hr.le_greatest
  have hu : r.stop - r.bucketMillis < Stamp.greatest := by omega
  unfold readBuckets Listing.readBuckets
  by_cases hlt : r.stop - r.bucketMillis < r.start
  · simp only [hlt, if_true]
    rfl
  · simp only [hlt, if_false]
    refine bind_eq (I := fun d : Desk Memory => d.store.rows = m.rows) (E := fun _ => True)
      (Q := fun n => Listing.ahead ((Listing.query r p (r.stop - r.bucketMillis)).resumed after) < n) rfl
      ⟨hrows, Listing.ahead_lt_readsOf hleast _ _⟩ fun n d hd hn => ?_
    refine bind_eq (onStore_eq (firstPage_eq _ n after d.store))
      (Desk.ends_onStore (F := fun _ => True) (Listing.firstPage_ends m.serves hu hd hn) fun _ _ => trivial) ?_
    rintro page d' hd' ⟨⟨left, hans⟩, -⟩
    rcases hnext : page.next with _ | key
    · rfl
    · rcases hlast : page.items.getLast? with _ | last
      · rfl
      · have hk : key ∈ page.next := Option.mem_def.2 hnext
        have hw : last ∈ Listing.wanted r p after m.items := by
          unfold Listing.wanted
          rw [hans.select_eq]
          exact List.mem_append_left left (List.mem_of_getLast? hlast)
        obtain ⟨hbucketEnd, hperiodEnd⟩ := within_of_wanted hr hw
        simp only
        rw [ensure_bind hr.increment_pos, ensure_bind hbucketEnd]
        by_cases hfit : last.key.sort + r.bucketMillis < Listing.endOfPeriod r last.key.sort
        · simp only [hfit, if_true]
          rw [ensure_bind hperiodEnd]
          have hkey : Stamp.least ≤ key.sort :=
            Int.le_trans (RangeRead.least_le_floor hleast) (hans.floor_le key hk)
          have hupper : min (Listing.endOfPeriod r last.key.sort - 1) (r.stop - r.bucketMillis) <
              Stamp.greatest := by omega
          refine bind_eq (I := fun d : Desk Memory => d.store.rows = m.rows) (E := fun _ => True)
            (Q := fun _ => True) rfl ⟨hd', trivial⟩ fun n d'' hd'' _ => ?_
          have hcount := ahead_lt_greatest (q := Listing.query r p
            (min (Listing.endOfPeriod r last.key.sort - 1) (r.stop - r.bucketMillis))) hupper hkey
          exact bind_eq_of_forall (onStore_eq (remaining_eq hupper (by omega) hd'')) fun _ _ => rfl
        · simp only [hfit, if_false]
          rfl

/-! ## The periods of a page -/

/-- The period with the video of a bucket added. -/
def add (q : Period) (b : Bucket) : Except Operation Period :=
  if q.cloudDensity + b.cloudDensity ≤ Density.greatest ∧
      q.deviceDensity + b.deviceDensity ≤ Density.greatest ∧
      b.cloudDensity + b.deviceDensity ≤ Density.greatest ∧ q.density + b.total ≤ Density.greatest then
    .ok (q.add b)
  else .error .sum

/-- The periods from `start` up to `stop`, each of which must end after it starts. -/
def distribute (increment start stop : Int) (buckets : List Bucket) : Except Operation (List Period) :=
  if _hstop : start < stop then
    let next := Stamp.later start increment
    if _hnext : start < next then do
      let inside := buckets.takeWhile (·.start < next)
      let period ← (inside.filter (start ≤ ·.start)).foldlM add (Period.empty start)
      return period :: (← distribute increment next stop (buckets.dropWhile (·.start < next)))
    else .error .nextPeriod
  else .ok []
  termination_by (stop - start).toNat

/-- The page of the periods from `first` on. -/
def pageOf (r : Listing.Request) (p : Paging) (first : Int) (g : Listing.Gathered) :
    Guarded (Desk Memory) Failure PeriodPage := do
  let buckets ← lift (Desk.check .unreadable (g.items.mapM (Bucket.ofItem r.device r.granularity)))
  let (stop, full) := Listing.pageStop r p first g.stop
  let results ← ofResult (distribute r.increment first stop buckets)
  ensure .beforeStop (full = true → IsPosition r (stop - 1))
  return { results, token := (Listing.resumeKey? r g stop full).map Token.encode }

/-- One page of a listing. -/
def page (p : Paging) (r : Listing.Request) : Guarded (Desk Memory) Failure PeriodPage := do
  ensure .remainder (0 < r.bucketMillis)
  lift (Desk.check .request r.check)
  ensure .quotient (0 < r.increment)
  let (after, first) ← lift (Desk.check .token r.resume)
  if r.stop ≤ first then
    return {}
  else
    let lastBucket ← lift (Desk.check .request r.lastBucket)
    let gathered ← readBuckets r p lastBucket after
    pageOf r p first gathered

/-- Sums that come to no more than the greatest density are formed one by one. -/
theorem foldlM_add (bs : List Bucket) {q : Period} (hq : q.density = q.cloudDensity + q.deviceDensity)
    (h : q.density + Bucket.video bs ≤ Density.greatest) : bs.foldlM add q = .ok (bs.foldl Period.add q) := by
  induction bs generalizing q with
  | nil => rfl
  | cons b bs ih =>
    rw [Bucket.video_cons] at h
    have htotal : b.total = b.cloudDensity + b.deviceDensity := rfl
    have hadd : add q b = .ok (q.add b) := by
      unfold add
      rw [if_pos ⟨by omega, by omega, by omega, by omega⟩]
    rw [List.foldlM_cons, hadd]
    refine ih ?_ ?_
    · show q.density + b.total = q.cloudDensity + b.cloudDensity + (q.deviceDensity + b.deviceDensity)
      omega
    · show q.density + b.total + Bucket.video bs ≤ _
      omega

theorem video_le_of_sublist {bs bs' : List Bucket} (h : bs.Sublist bs') :
    Bucket.video bs ≤ Bucket.video bs' := by
  induction h with
  | slnil => exact Nat.le_refl _
  | cons b _ ih =>
    rw [Bucket.video_cons]
    omega
  | cons_cons b _ ih =>
    rw [Bucket.video_cons, Bucket.video_cons]
    omega

theorem density_gather (start stop : Int) (bs : List Bucket) : (Period.gather start stop bs).1.density =
    Bucket.video ((bs.takeWhile (·.start < stop)).filter (start ≤ ·.start)) := by
  unfold Period.gather
  simp only [Period.foldl_add, Period.empty, Nat.zero_add]
  rfl

/-- No period has more video than all the buckets. -/
theorem density_le_video {increment start stop : Int} {bs : List Bucket} :
    ∀ q ∈ Period.distribute increment start stop bs, q.density ≤ Bucket.video bs := by
  fun_induction Period.distribute increment start stop bs with
  | case1 start bs hlt next period rest hg ih =>
    obtain ⟨rfl, rfl⟩ := Prod.mk.inj hg
    have hinside := video_le_of_sublist
      ((List.filter_sublist (p := (start ≤ ·.start))).trans (bs.takeWhile_sublist (·.start < next)))
    have hrest := video_le_of_sublist (bs.dropWhile_sublist (·.start < next))
    intro q hq
    rcases List.mem_cons.1 hq with rfl | hq
    · exact Nat.le_trans (Nat.le_of_eq (density_gather start next bs)) hinside
    · exact Nat.le_trans (ih q hq) hrest
  | case2 => exact fun q hq => absurd hq List.not_mem_nil

/-- Periods whose sums fit are formed, each of them further on than the one before. -/
theorem distribute_eq_ok {increment stop : Int} (hi : 0 < increment) (hstop : stop ≤ Stamp.greatest)
    (start : Int) {bs : List Bucket}
    (h : ∀ q ∈ Period.distribute increment start stop bs, q.density ≤ Density.greatest) :
    distribute increment start stop bs = .ok (Period.distribute increment start stop bs) := by
  fun_induction Period.distribute increment start stop bs with
  | case1 start bs hlt next period rest hg ih =>
    unfold distribute
    have hnext : start < Stamp.later start increment := Period.lt_later hi hlt.2.2
    obtain ⟨rfl, rfl⟩ := Prod.mk.inj hg
    have hfits := h _ List.mem_cons_self
    have hperiod := foldlM_add ((bs.takeWhile (·.start < next)).filter (start ≤ ·.start))
      (q := Period.empty start) rfl (by
        rw [show (Period.empty start).density = 0 from rfl, Nat.zero_add, ← density_gather]
        exact hfits)
    rw [dif_pos hlt.1, dif_pos hnext]
    simp only
    rw [hperiod, ih fun q hq => h q (List.mem_cons_of_mem _ hq)]
    rfl
  | case2 start bs hlt =>
    unfold distribute
    rw [dif_neg fun h => hlt ⟨h, hi, by omega⟩]

/-! ## A page -/

variable {after : Option Key} {first : Int} {g : Listing.Gathered}

/-- The gathered buckets of a sound store hold no more than the listing is long. -/
theorem video_gathered_le (hm : m.Sound) (hlt : r.start < r.stop)
    (hg : Listing.Gathers r p m.items after g) :
    (Bucket.video (Bucket.decoded r.device r.granularity g.items) : Int) ≤ r.stop - r.start := by
  have hb := Listing.bucketMillis_pos r
  have hbucket : ∀ b ∈ Bucket.decoded r.device r.granularity g.items, r.start ≤ b.start ∧
      b.start ≤ r.stop - r.bucketMillis ∧ r.bucketMillis ∣ b.start ∧ (b.total : Int) ≤ r.bucketMillis := by
    intro b hmem
    obtain ⟨i, hi, hdecoded⟩ := List.mem_filterMap.1 hmem
    have hofItem := eq_ok_of_toOption hdecoded
    rw [hg.items_eq] at hi
    obtain ⟨hi, hp, hs, hle⟩ := Listing.mem_wanted (List.mem_filter.1 hi).1
    obtain ⟨b', hb', ha, htotal⟩ := hm.exists_bucket hi hp
    obtain rfl := Except.ok.inj (hofItem.symm.trans hb')
    rw [Bucket.start_of_ofItem i b hofItem]
    exact ⟨hs, hle, Int.dvd_of_emod_eq_zero ha, htotal⟩
  have hspaced := Bucket.spaced_of_sorted (Listing.sorted_decoded_gathered m.ascending_items hg)
    fun b hmem => (hbucket b hmem).2.2.1
  have hsum : (Bucket.video (Bucket.decoded r.device r.granularity g.items) : Int) ≤
      max 0 (r.stop - r.bucketMillis - r.start + r.bucketMillis) := by
    refine Bucket.video_le hspaced fun b hmem => ?_
    obtain ⟨hs, hle, -, htotal⟩ := hbucket b hmem
    exact ⟨hs, hle, htotal⟩
  omega

/-- A full page stops at a position of the listing. -/
theorem isPosition_of_full (hr : r.Bounded) (hR : Listing.Resumes r first after)
    (hg : Listing.Gathers r p m.items after g) (hfull : (Listing.pageStop r p first g.stop).2 = true) :
    IsPosition r ((Listing.pageStop r p first g.stop).1 - 1) := by
  rcases Listing.pageStop_cases r p first g.stop with h | ⟨n, hn, hlt, h⟩
  · rw [h] at hfull
    exact absurd hfull (by simp)
  · rw [h]
    have hpos := hr.increment_pos
    have hsf := Listing.start_le_first hpos hR
    have hmul := Int.mul_le_mul_of_nonneg_right hn (Int.le_of_lt hpos)
    have hle := hg.stop_le
    have hleast := hr.least_le
    have hgreatest := hr.le_greatest
    simp only
    exact ⟨⟨⟨by omega, by omega⟩, by omega, by omega⟩, by omega⟩

theorem pageOf_eq_ok (hm : m.Sound) (hr : r.Bounded) (hlt : r.start < r.stop)
    (hR : Listing.Resumes r first after) (hg : Listing.Gathers r p m.items after g) (desk : Desk Memory) :
    pageOf r p first g desk = .ok (Desk.check .unreadable (Listing.pageOf r p first g) desk) := by
  have hle := hg.stop_le
  have hleast := hr.least_le
  have hgreatest := hr.le_greatest
  have hstop : (Listing.pageStop r p first g.stop).1 ≤ Stamp.greatest := by
    rcases Listing.pageStop_cases r p first g.stop with h | ⟨n, -, hlt, h⟩
    · rw [h]
      simp only
      omega
    · rw [h]
      simp only
      omega
  have hspan : Stamp.greatest - Stamp.least = Density.greatest := rfl
  have hvideo : Bucket.video (Bucket.decoded r.device r.granularity g.items) ≤ Density.greatest := by
    have := video_gathered_le hm hlt hg
    omega
  have hresults := distribute_eq_ok hr.increment_pos hstop first fun q hq =>
    Nat.le_trans (density_le_video q hq) hvideo
  rw [Listing.pageOf_eq (hm.listable r) hg]
  unfold pageOf
  rw [Listing.mapM_gathered (hm.listable r) hg]
  exact (ofResult_bind hresults _ desk).trans (ensure_bind (isPosition_of_full hr hR hg) _ desk)

theorem lastBucket_eq {t : Int} (h : r.lastBucket = .ok t) : t = r.stop - r.bucketMillis := by
  unfold Listing.Request.lastBucket at h
  cases hfit : Stamp.fit? (r.stop - r.bucketMillis) with
  | none =>
    rw [hfit] at h
    exact absurd h (by simp)
  | some u =>
    rw [hfit] at h
    obtain rfl := Except.ok.inj h
    exact (Stamp.fit?_eq_some.1 hfit).2.symm

theorem page_eq (hm : m.Sound) (hstart : Stamp.Fits r.start) (hstop : Stamp.Fits r.stop) (p : Paging)
    {desk : Desk Memory} (hrows : desk.store.rows = m.rows) :
    page p r desk = .ok (Listing.page Memory.backend p r desk) := by
  unfold page Listing.page Listing.pageBy
  rw [ensure_bind (Listing.bucketMillis_pos r)]
  refine check_bind fun _ hcheck => ?_
  obtain ⟨hi, -, hlt⟩ := Listing.check_eq_ok.1 hcheck
  have hr : r.Bounded := ⟨hi, hstart.1, hstop.2⟩
  rw [ensure_bind hi]
  refine check_bind ?_
  rintro ⟨after, first⟩ hresume
  have hR : Listing.Resumes r first after := Listing.resumes_of_resume hresume
  by_cases hle : r.stop ≤ first
  · simp only [hle, if_true]
    rfl
  · simp only [hle, if_false]
    refine check_bind fun lastBucket hlast => ?_
    obtain rfl := lastBucket_eq hlast
    refine bind_eq (readBuckets_eq hr hrows) (Listing.readBuckets_ends m.serves m.ascending_items
      (hm.listable r).aligned hi hstart.1 hstop.2 hrows) fun g d _ hg => ?_
    exact pageOf_eq_ok hm hr hlt hR hg d

/-- **The arithmetic of a listing stays in range.** With a test before each unchecked operation the listing
gives the same answer, so no test fails, whatever the history and the call. -/
theorem page_in_range (arrivals : List Rollup.Arrival) (p : Paging) (r : Listing.Request)
    (hstart : Stamp.Fits r.start) (hstop : Stamp.Fits r.stop) (desk : Desk Memory)
    (hrows : desk.store.rows = (Rollup.History.of arrivals).store.rows) :
    page p r desk = .ok (Listing.page Memory.backend p r desk) ∧
    ((∃ pg, (Listing.page Memory.backend p r desk).1 = .ok pg) ∨
      ∃ f, (Listing.page Memory.backend p r desk).1 = .error f ∧
        (f.isCallersFault = true ∨ ∃ o, f = .store (.outage o))) := by
  have hs := Rollup.sound_of arrivals
  have hends : Ends _ _ _ (Listing.page Memory.backend p r desk) :=
    Listing.page_answers (Memory.serves _) (hs.listable r) hstart hstop p hrows
  refine ⟨page_eq hs hstart hstop p hrows, ?_⟩
  generalize Listing.page Memory.backend p r desk = outcome at hends
  obtain ⟨answer, desk'⟩ := outcome
  cases answer with
  | ok pg => exact .inl ⟨pg, rfl⟩
  | error f =>
    refine .inr ⟨f, rfl, ?_⟩
    rcases hends.2 with ⟨e, rfl⟩ | ⟨e, rfl⟩ | ⟨e, rfl, o, rfl⟩
    · exact .inl rfl
    · exact .inl rfl
    · exact .inr ⟨o, rfl⟩

/-- Two buckets of one period right before the greatest stored number, of which a page of the store has one. In
a table that is no history a test may fail: the sums of its period leave their range. -/
theorem page_in_range_at_greatest :
    let arrivals : List Rollup.Arrival :=
      [⟨.increment ⟨"d", .seconds, 9223372036854773000, 1000, .cloud⟩, ⟨7, 0⟩, {}⟩,
        ⟨.increment ⟨"d", .seconds, 9223372036854774000, 600, .device⟩, ⟨8, 0⟩, {}⟩]
    let m : Memory := { (Rollup.History.of arrivals).store with pageSize := some 1 }
    let r : Listing.Request := ⟨"d", .seconds, Stamp.greatest - 5000, Stamp.greatest, 2000, none⟩
    let token := Token.encode ⟨"d#SECONDS", 9223372036854774000⟩
    let full (start : Int) : Bucket := ⟨"d", .seconds, start, 9223372036854775807, 0, 0, 0⟩
    let m' : Memory := ((({} : Memory).store (full 0).item).store (full 1000).item).store (full 2000).item
    (∃ desk, page {} r ⟨m, ⟨0, 0⟩⟩ = .ok (.ok ⟨[.empty 9223372036854770807,
      ⟨9223372036854772807, 1600, 1000, 600⟩], some token⟩, desk)) ∧
    page {} ⟨"d", .seconds, 0, 3000, 3000, none⟩ ⟨m', ⟨0, 0⟩⟩ = .error .sum := by
  intro arrivals m r token full m'
  have hpage : (Listing.page Memory.backend {} r ⟨m, ⟨0, 0⟩⟩).1 = .ok ⟨[.empty 9223372036854770807,
      ⟨9223372036854772807, 1600, 1000, 600⟩], some token⟩ := eq_ok_of_toOption (by decide +kernel)
  obtain ⟨hguarded, -⟩ := page_in_range arrivals {} r (by decide) (by decide) ⟨m, ⟨0, 0⟩⟩ rfl
  refine ⟨⟨_, hguarded.trans (congrArg Except.ok (Prod.ext hpage rfl))⟩, ?_⟩
  have hsum : (match page {} ⟨"d", .seconds, 0, 3000, 3000, none⟩ ⟨m', ⟨0, 0⟩⟩ with
      | .ok _ => false
      | .error o => o = .sum) = true := by decide +kernel
  split at hsum
  · exact absurd hsum (by decide)
  · rename_i o h
    rw [h, of_decide_eq_true hsum]

end Guarded

end Footage
