import Footage.Boundary
import Footage.Config.Settings
import Footage.Period
import Footage.Rollup
import Footage.Token

/-!
# Listings of periods

A listing shows every period from a start up to an end, with or without video, over several pages.
A page ends where a page of the store ends, but never inside a period: the buckets that the period
still lacks are read first. It also ends after a set number of periods, so that a long stretch without
video comes on several pages too. The next page resumes at the boundary after the position that the
token names.

1. `Request.check` refuses what is no listing.
2. `Request.resume` finds the first period of the page.
3. `readBuckets` reads the first buckets there are, and those that complete the last period.
4. `pageOf` cuts the page and names the position to resume at.
-/

namespace Footage.Listing

open Desk

variable {σ : Type}

/-- A listing of the periods of a device. -/
structure Request where
  device : String
  granularity : Granularity
  /-- The first period starts here. -/
  start : Int
  /-- The listing ends before this time. -/
  stop : Int
  /-- The length of a period: a positive multiple of the length of a bucket. -/
  increment : Int
  /-- The token of the previous page. -/
  token : Option String := none
  deriving DecidableEq, Repr

namespace Request

/-- The length of a bucket. -/
def bucketMillis (r : Request) : Int := r.granularity.millis

/-- The partition of the buckets. -/
def partition (r : Request) : String := Bucket.partition r.device r.granularity

/-- The increment is a positive multiple of the bucket's length and the range is not empty. -/
def check (r : Request) : Except RequestError Unit :=
  if r.increment ≤ 0 ∨ r.increment % r.bucketMillis ≠ 0 then
    .error (.badIncrement r.granularity r.increment)
  else if r.stop ≤ r.start then .error (.emptyRange r.start r.stop)
  else .ok ()

/-- The first boundary after a position that a token names. -/
def resumeAt (r : Request) (position : Int) : Except TokenError Int :=
  if position < r.start ∨ r.stop ≤ position then
    .error (.outside position r.start r.stop)
  else match boundaryAfter? r.start r.increment position with
    | some boundary => .ok boundary
    | none => .error (.lastPeriod position)

/-- The key to resume after, if a token is given, and the first period of the page. -/
def resume (r : Request) : Except TokenError (Option Key × Int) := do
  match r.token with
  | none => return (none, r.start)
  | some token =>
    let key ← Token.decode r.partition token
    return (some key, ← r.resumeAt key.sort)

/-- The last time at which a bucket may start without running past the end. -/
def lastBucket (r : Request) : Except RequestError Int :=
  match Stamp.fit? (r.stop - r.bucketMillis) with
  | some t => .ok t
  | none => .error (.tooEarly r.stop)

end Request

/-! ## Reading buckets -/

/-- The first page with an item, or the last page there is, within a number of reads. -/
def firstPage (b : Backend σ) (q : RangeRead) : Nat → Option Key → StoreTask σ RangePage
  | 0, _ => throw (.endless q.partition)
  | reads + 1, after => do
    let page ← b.read (q.resumed after)
    match page.items, page.next with
    | [], some key => firstPage b q reads (some key)
    | _, _ => return page

/-- The items of all pages after a key, within a number of reads. -/
def remaining (b : Backend σ) (q : RangeRead) : Nat → Key → StoreTask σ (List Item)
  | 0, _ => throw (.endless q.partition)
  | reads + 1, after => do
    let page ← b.read (q.resumed (some after))
    match page.next with
    | some key => return page.items ++ (← remaining b q reads key)
    | none => return page.items

/-- The items that a page is made of, the time up to which they are complete, and whether the store
may hold more. -/
structure Gathered where
  items : List Item
  stop : Int
  more : Bool
  deriving DecidableEq

/-- The query for the buckets of a listing that start up to a time. -/
def query (r : Request) (p : Paging) (upper : Int) : RangeRead :=
  { partition := r.partition, lower := r.start, upper, limit := p.bucketLimit }

/-- The end of the period in which a bucket starts. -/
def endOfPeriod (r : Request) (bucketStart : Int) : Int :=
  ((boundaryAfter? r.start r.increment bucketStart).map (min · r.stop)).getD r.stop

/-- The buckets of the next page of the store, and those that complete the period of the last one. -/
def readBuckets (b : Backend σ) (r : Request) (p : Paging) (lastBucket : Int)
    (after : Option Key) : DeskTask σ Gathered := do
  if lastBucket < r.start then
    return ⟨[], r.stop, false⟩
  else
    let q := query r p lastBucket
    let page ← onStore (firstPage b q (← readsOf b q) after)
    match page.next, page.items.getLast? with
    | some key, some last =>
      let stop := endOfPeriod r last.key.sort
      if last.key.sort + r.bucketMillis < stop then
        let q := query r p (min (stop - 1) lastBucket)
        let rest ← onStore (remaining b q (← readsOf b q) key)
        return ⟨page.items ++ rest, stop, true⟩
      else
        return ⟨page.items, stop, true⟩
    | next, _ => return ⟨page.items, r.stop, next.isSome⟩

/-! ## The page -/

/-- The end of the most periods that a page may hold, where that is a stored number. -/
def fullAt? (r : Request) (p : Paging) (first : Int) : Option Int := do
  let count ← Stamp.fit? p.periodLimit
  let length ← Stamp.fit? (count * r.increment)
  Stamp.fit? (first + length)

/-- The time at which a page stops, and whether that is because it is full. -/
def pageStop (r : Request) (p : Paging) (first dataStop : Int) : Int × Bool :=
  match fullAt? r p first with
  | some cap => if cap < dataStop then (cap, true) else (dataStop, false)
  | none => (dataStop, false)

/-- The key that the token of a page names, if there is another page: where a full page stops, or
the last item. -/
def resumeKey? (r : Request) (g : Gathered) (stop : Int) (full : Bool) : Option Key :=
  if full then some ⟨r.partition, stop - 1⟩
  else if g.more ∧ stop < r.stop then g.items.getLast?.map (·.key)
  else none

/-- The page of the periods from `first` on. -/
def pageOf (r : Request) (p : Paging) (first : Int) (g : Gathered) :
    Except AttributeError PeriodPage := do
  let buckets ← g.items.mapM (Bucket.ofItem r.device r.granularity)
  let (stop, full) := pageStop r p first g.stop
  return {
    results := Period.distribute r.increment first stop buckets
    token := (resumeKey? r g stop full).map Token.encode }

/-- One page of a listing, with what is made of its first period and of the buckets that are read. -/
def pageBy (form : Int → Gathered → Except AttributeError PeriodPage) (b : Backend σ) (p : Paging)
    (r : Request) : DeskTask σ PeriodPage := do
  Desk.check .request r.check
  let (after, first) ← Desk.check .token r.resume
  if r.stop ≤ first then
    return {}
  else
    let lastBucket ← Desk.check .request r.lastBucket
    let gathered ← readBuckets b r p lastBucket after
    Desk.check .unreadable (form first gathered)

/-- One page of a listing. -/
def page (b : Backend σ) (p : Paging) (r : Request) : DeskTask σ PeriodPage :=
  pageBy (pageOf r p) b p r

end Footage.Listing
