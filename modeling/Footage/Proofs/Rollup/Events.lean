import Mathlib
import Footage.Proofs.Listing.Buckets
import Footage.Proofs.Rollup.Ledger

/-!
# The ledger of events

Where each event was accepted, the receipts of a bucket are those of its events. So what a bucket holds
follows from the events alone (`ledger_eq`), and the video of a stretch of time is the sum of their
ledgers over all starts in it, since a start without events has nothing (`sum_density_eq`).
-/

namespace Footage.Rollup

/-- The video that events report at a location. -/
def reported (l : Location) (es : List Event) : Nat :=
  ((es.filter (·.update.location = l)).map (·.update.duration)).sum

/-- The video that has moved to a location by events. -/
def moved (l : Location) (es : List Event) : Nat :=
  ((es.filter fun e => e.update.location = l ∧ e.moves = true).map (·.update.duration)).sum

/-- What the events of one bucket leave at a location: a catchup takes from the other one, unless it is
the first event. -/
def ledger (l : Location) (es : List Event) : Int := reported l es - moved l.opposite es.tail

/-- The events of one bucket. -/
def eventsOf (es : List Event) (device : String) (g : Granularity) (start : Int) : List Event :=
  es.filter fun e =>
    e.update.device = device ∧ e.update.granularity = g ∧ e.update.bucketStart = start

theorem reported_map_event (l : Location) (rs : List Receipt) :
    reported l (rs.map (·.event)) = incremented l rs + caughtUp l rs := by
  induction rs with
  | nil => rfl
  | cons r rs ih =>
    have hincremented := incremented_append l [r] rs
    rw [List.singleton_append, incremented_singleton] at hincremented
    rw [caughtUp_cons, caughtUp_singleton, hincremented, List.map_cons]
    unfold reported at ih ⊢
    by_cases hl : r.event.update.location = l
    · rw [List.filter_cons_of_pos (by simpa using hl), List.map_cons, List.sum_cons, ih]
      cases hm : r.event.moves <;> simp [hl] <;> omega
    · rw [List.filter_cons_of_neg (by simpa using hl), ih]
      simp [hl]

theorem moved_map_event (l : Location) (rs : List Receipt) :
    moved l (rs.map (·.event)) = caughtUp l rs := by
  unfold moved caughtUp
  rw [List.filter_map, List.map_map]
  rfl

theorem ledger_map_event (l : Location) (rs : List Receipt) :
    ledger l (rs.map (·.event)) = incremented l rs + caughtUp l rs - caughtUp l.opposite rs.tail := by
  unfold ledger
  rw [reported_map_event, ← List.map_tail, moved_map_event, Nat.cast_add]

theorem eventsOf_map_event (h : History) (device : String) (g : Granularity) (start : Int) :
    eventsOf (h.receipts.map (·.event)) device g start = (h.receiptsOf device g start).map (·.event) := by
  unfold eventsOf History.receiptsOf
  rw [List.filter_map]
  rfl

section

variable {arrivals : List Arrival} {es : List Event}

/-- What a store holds under a key is the ledger of the accepted events. -/
theorem ledger_eq (hes : (History.of arrivals).receipts.map (·.event) = es) (device : String)
    (g : Granularity) (start : Int) :
    ∃ old, (History.of arrivals).store.bucket device g start = .ok old ∧
      ∀ l, ledger l (eventsOf es device g start) = (old.map (·.density l)).getD 0 := by
  obtain ⟨old, hold, hbal⟩ := balanced_of arrivals device g start
  refine ⟨old, hold, fun l => ?_⟩
  rw [← hes, eventsOf_map_event, ledger_map_event]
  cases old with
  | none =>
    rw [show History.receiptsOf _ device g start = [] from hbal]
    rfl
  | some b =>
    have hA : Accounts _ b := hbal
    exact (hA.density l).symm

/-- The video of the buckets in a stretch of time, summed over all starts. -/
theorem sum_density_eq (hes : (History.of arrivals).receipts.map (·.event) = es) (device : String)
    (g : Granularity) (l : Location) (lo hi : Int) :
    ((((History.of arrivals).store.buckets device g).filter fun b =>
      lo ≤ b.start ∧ b.start < hi).map fun b => (b.density l : Int)).sum =
      ∑ s ∈ Finset.Ico lo hi, ledger l (eventsOf es device g s) := by
  generalize hbs : ((History.of arrivals).store.buckets device g).filter (fun b =>
      lo ≤ b.start ∧ b.start < hi) = bs
  have hmem : ∀ b, b ∈ bs ↔ (History.of arrivals).store.bucket device g b.start = .ok (some b) ∧
      b.start ∈ Finset.Ico lo hi := by
    intro b
    rw [← hbs, List.mem_filter, decide_eq_true_eq, Memory.mem_buckets, Finset.mem_Ico]
  have hnodup : (bs.map (·.start)).Nodup := by
    have hsorted : Period.Sorted bs := hbs ▸ (Memory.sorted_buckets _ device g).filter _
    exact List.pairwise_map.2 (hsorted.imp fun hlt => Int.ne_of_lt hlt)
  have hdensity : ∀ b ∈ bs, (b.density l : Int) = ledger l (eventsOf es device g b.start) := by
    intro b hb
    obtain ⟨old, hold, hledger⟩ := ledger_eq hes device g b.start
    obtain rfl := Except.ok.inj (((hmem b).1 hb).1.symm.trans hold)
    exact (hledger l).symm
  calc (bs.map fun b => (b.density l : Int)).sum
      = ((bs.map (·.start)).map fun s => ledger l (eventsOf es device g s)).sum := by
        rw [List.map_map]
        exact congrArg List.sum (List.map_congr_left hdensity)
    _ = ∑ s ∈ (bs.map (·.start)).toFinset, ledger l (eventsOf es device g s) :=
        (List.sum_toFinset _ hnodup).symm
    _ = ∑ s ∈ Finset.Ico lo hi, ledger l (eventsOf es device g s) := by
        refine Finset.sum_subset (fun s hs => ?_) fun s hs hno => ?_
        · obtain ⟨b, hb, rfl⟩ := List.mem_map.1 (List.mem_toFinset.1 hs)
          exact ((hmem b).1 hb).2
        · -- a start without a bucket has no events
          obtain ⟨old, hold, hledger⟩ := ledger_eq hes device g s
          rw [hledger l]
          cases old with
          | none => rfl
          | some b =>
            obtain ⟨i, hi, ho⟩ := Memory.find?_of_entry_eq_some hold
            have hstart : b.start = s := by
              rw [Bucket.start_of_ofItem i b ho, Memory.key_of_find? hi]
            subst hstart
            exact absurd (List.mem_toFinset.2 (List.mem_map_of_mem ((hmem b).2 ⟨hold, hs⟩))) hno

end

end Footage.Rollup
