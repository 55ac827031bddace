import Footage.Proofs.Rollup.Save

/-!
# Histories of a rollup

Events reach a store in memory one after the other, with any clock and any failing calls. A history
is the store after them, with a receipt for each save that was accepted. `History.of_induct` is the
induction over arrivals: an arrival is either accepted, which adds a receipt and stores its bucket,
or it changes nothing but which calls fail.
-/

namespace Footage.Rollup

/-- An event as it reaches a store: the clock as it stands then, and the calls that the store fails. -/
structure Arrival where
  event : Event
  clock : Clock
  faults : Faults := {}

/-- An accepted save: the event, the reading of the clock, and the bucket that it answered. -/
structure Receipt where
  event : Event
  now : Int
  bucket : Bucket
  deriving DecidableEq, Repr

/-- A store, and the receipts of the saves that it accepted, the first one first. -/
structure History where
  receipts : List Receipt := []
  store : Memory := {}

namespace History

/-- The desk at which an arrival is worked on. -/
def desk (h : History) (a : Arrival) : Desk Memory := ⟨{ h.store with faults := a.faults }, a.clock⟩

theorem bucket_desk (h : History) (a : Arrival) (device : String) (g : Granularity) (start : Int) :
    (h.desk a).store.bucket device g start = h.store.bucket device g start :=
  Memory.entry_congr rfl _

/-- The history after one more arrival. -/
def next (h : History) (a : Arrival) : History :=
  match save Memory.backend a.event (h.desk a) with
  | (.ok b, desk) => ⟨h.receipts ++ [⟨a.event, a.clock.now, b⟩], desk.store⟩
  | (.error _, desk) => ⟨h.receipts, desk.store⟩

/-- The history of a new store after some arrivals. -/
def of (arrivals : List Arrival) : History := arrivals.foldl next {}

theorem next_of_accepted {h : History} {a : Arrival} {old : Option Bucket} {b : Bucket}
    (ha : Accepted a.event (h.desk a) old b) :
    h.next a = ⟨h.receipts ++ [⟨a.event, a.clock.now, b⟩], (h.desk a).store.store b.item⟩ := by
  unfold next
  rw [ha.answer]

/-- What holds of a new store and is kept by every arrival holds of every history. -/
theorem of_induct {P : History → Prop} (init : P {})
    (accepted : ∀ h a old b, P h → Accepted a.event (h.desk a) old b →
      P ⟨h.receipts ++ [⟨a.event, a.clock.now, b⟩], (h.desk a).store.store b.item⟩)
    (rejected : ∀ h a, P h → P ⟨h.receipts, (h.desk a).store⟩) (arrivals : List Arrival) :
    P (of arrivals) := by
  have hnext : ∀ h a, P h → P (h.next a) := by
    intro h a hP
    rcases save_cases a.event (h.desk a) with ⟨old, b, ha⟩ | ⟨f, clock, hf⟩
    · rw [next_of_accepted ha]
      exact accepted h a old b hP ha
    · unfold next
      rw [hf]
      exact rejected h a hP
  exact List.foldlRecOn arrivals next init fun h hP a _ => hnext h a hP

/-- The receipts for one bucket. -/
def receiptsOf (h : History) (device : String) (g : Granularity) (start : Int) : List Receipt :=
  h.receipts.filter fun r =>
    r.event.update.device = device ∧ r.event.update.granularity = g ∧ r.event.update.bucketStart = start

end History

end Footage.Rollup
