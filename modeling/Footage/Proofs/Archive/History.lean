import Footage.Proofs.Archive.Save

/-!
# Histories of an archive

Reports of fragments reach a store in memory one after the other, with any clock and any failing
calls. A history is the store after them, with a receipt for each report that was accepted, which
says what the record was before and after it. `Step` is all that an arrival can do: it is accepted
and leaves every other record as it was, or it leaves them all.
-/

namespace Footage.Archive

/-- A report as it reaches a store: the clock as it stands then, and the calls that the store fails. -/
structure Arrival where
  device : String
  timestamp : Int
  duration : Nat
  location : Location
  clock : Clock
  faults : Faults := {}

/-- An accepted report: the reading of the clock, and the record before and after it. -/
structure Receipt where
  device : String
  timestamp : Int
  duration : Nat
  location : Location
  now : Int
  before : Option Fragment
  after : Option Fragment
  deriving DecidableEq, Repr

/-- The stored duration and location are others after the report. -/
def Receipt.Changed (r : Receipt) : Prop :=
  r.before.map (fun f => (f.duration, f.location)) ≠ r.after.map fun f => (f.duration, f.location)

instance : DecidablePred Receipt.Changed := fun r =>
  inferInstanceAs (Decidable (r.before.map (fun f => (f.duration, f.location)) ≠
    r.after.map fun f => (f.duration, f.location)))

/-- A store, and the receipts of the reports that it accepted, the first one first. -/
structure History where
  receipts : List Receipt := []
  store : Memory := {}

namespace History

/-- The desk at which an arrival is worked on. -/
def desk (h : History) (a : Arrival) : Desk Memory := ⟨{ h.store with faults := a.faults }, a.clock⟩

/-- The receipt for an arrival, between two stores. -/
def receipt (a : Arrival) (before after : Memory) : Receipt :=
  ⟨a.device, a.timestamp, a.duration, a.location, a.clock.now,
    (before.record a.device a.timestamp).toOption.join,
    (after.record a.device a.timestamp).toOption.join⟩

/-- The history after one more arrival. -/
def next (p : Paging) (h : History) (a : Arrival) : History :=
  match save Memory.backend p a.device a.timestamp a.duration a.location (h.desk a) with
  | (.ok (), desk) => ⟨h.receipts ++ [receipt a h.store desk.store], desk.store⟩
  | (.error _, desk) => ⟨h.receipts, desk.store⟩

/-- The history of a new store after some arrivals. -/
def of (p : Paging) (arrivals : List Arrival) : History := arrivals.foldl (next p) {}

/-- The record after an accepted arrival. -/
def outcome (p : Paging) (a : Arrival) (old : Option Fragment) : Option Fragment :=
  Archive.outcome p a.device a.timestamp a.duration a.location old a.clock.now

theorem outcome_of_keeps {p : Paging} {a : Arrival} {old : Option Fragment}
    (h : Keeps old a.duration a.location) : outcome p a old = old := if_pos h

theorem outcome_of_not_keeps {p : Paging} {a : Arrival} {old : Option Fragment}
    (h : ¬ Keeps old a.duration a.location) : outcome p a old =
      some (revise p a.device a.timestamp a.duration a.location old a.clock.now) := if_neg h

/-- What an arrival does to a history: it is accepted, with a receipt, or it changes no record. -/
inductive Step (p : Paging) (h : History) (a : Arrival) : History → Prop
  | accepted {old : Option Fragment} {store : Memory}
      (stored : h.store.record a.device a.timestamp = .ok old)
      (possible : Possible a.faults old a.duration a.location)
      (after : store.record a.device a.timestamp = .ok (outcome p a old))
      (others : ∀ device timestamp, ¬ (a.device = device ∧ a.timestamp = timestamp) →
        store.record device timestamp = h.store.record device timestamp) :
      Step p h a ⟨h.receipts ++ [⟨a.device, a.timestamp, a.duration, a.location, a.clock.now, old,
        outcome p a old⟩], store⟩
  | failed {store : Memory}
      (impossible : ∀ old, h.store.record a.device a.timestamp = .ok old →
        ¬ Possible a.faults old a.duration a.location)
      (same : ∀ device timestamp, store.record device timestamp = h.store.record device timestamp) :
      Step p h a ⟨h.receipts, store⟩

theorem step_next (p : Paging) (h : History) (a : Arrival) : Step p h a (h.next p a) := by
  have hsame : ∀ device timestamp,
      (h.desk a).store.record device timestamp = h.store.record device timestamp :=
    fun device timestamp => Memory.entry_congr rfl _
  rcases save_cases p a.device a.timestamp a.duration a.location (h.desk a) with
    ⟨old, ha⟩ | ⟨hno, f, clock, hf⟩
  · obtain ⟨desk', hs, -, hrec, hothers⟩ := ha.answer
    have hstored : h.store.record a.device a.timestamp = .ok old := (hsame _ _).symm.trans ha.stored
    have hnext : h.next p a = ⟨h.receipts ++ [⟨a.device, a.timestamp, a.duration, a.location,
        a.clock.now, old, outcome p a old⟩], desk'.store⟩ := by
      unfold next
      rw [hs]
      simp only [receipt, hstored, hrec]
      rfl
    rw [hnext]
    exact .accepted hstored ha.possible hrec fun device timestamp hne =>
      (hothers device timestamp hne).trans (hsame device timestamp)
  · have hnext : h.next p a = ⟨h.receipts, (h.desk a).store⟩ := by
      unfold next
      rw [hf]
    rw [hnext]
    exact .failed (fun old hold => hno old ((hsame _ _).trans hold)) hsame

/-- What holds of a new store and is kept by every step holds of every history. -/
theorem of_induct {p : Paging} {P : History → Prop} (init : P {})
    (step : ∀ h a h', P h → Step p h a h' → P h') (arrivals : List Arrival) : P (of p arrivals) :=
  List.foldlRecOn arrivals (next p) init fun h hP a _ => step h a _ hP (step_next p h a)

/-- The receipts for one record. -/
def receiptsOf (h : History) (device : String) (timestamp : Int) : List Receipt :=
  h.receipts.filter fun r => r.device = device ∧ r.timestamp = timestamp

end History

end Footage.Archive
