import Mathlib.Algebra.GroupWithZero.Nat
import Footage.Proofs.Rollup.History

/-!
# The ledger of a bucket

The receipts of a bucket are its ledger. `incremented` and `caughtUp` sum up what they report at a
location, and `Accounts` says how a bucket follows from them: a catchup takes from the other
location, unless it is the first receipt. The main statement is that every stored bucket is
accounted for by the receipts of its key, over every history.
-/

namespace Footage.Rollup

/-- The video newly observed at a location. -/
def incremented (l : Location) (rs : List Receipt) : Nat :=
  ((rs.filter fun r => r.event.update.location = l ∧ r.event.moves = false).map
    (·.event.update.duration)).sum

/-- The video that has moved to a location. -/
def caughtUp (l : Location) (rs : List Receipt) : Nat :=
  ((rs.filter fun r => r.event.update.location = l ∧ r.event.moves = true).map
    (·.event.update.duration)).sum

theorem incremented_append (l : Location) (rs rs' : List Receipt) :
    incremented l (rs ++ rs') = incremented l rs + incremented l rs' := by
  unfold incremented
  rw [List.filter_append, List.map_append, List.sum_append]

theorem caughtUp_append (l : Location) (rs rs' : List Receipt) :
    caughtUp l (rs ++ rs') = caughtUp l rs + caughtUp l rs' := by
  unfold caughtUp
  rw [List.filter_append, List.map_append, List.sum_append]

theorem caughtUp_cons (l : Location) (r : Receipt) (rs : List Receipt) :
    caughtUp l (r :: rs) = caughtUp l [r] + caughtUp l rs := caughtUp_append l [r] rs

theorem incremented_singleton (l : Location) (r : Receipt) :
    incremented l [r] =
      if r.event.update.location = l ∧ r.event.moves = false then r.event.update.duration else 0 := by
  unfold incremented
  by_cases h : r.event.update.location = l ∧ r.event.moves = false <;> simp [h]

theorem caughtUp_singleton (l : Location) (r : Receipt) :
    caughtUp l [r] =
      if r.event.update.location = l ∧ r.event.moves = true then r.event.update.duration else 0 := by
  unfold caughtUp
  by_cases h : r.event.update.location = l ∧ r.event.moves = true <;> simp [h]

/-- A receipt changes a stored bucket by what it reports at a location, less what it reports to have
left it. -/
theorem change_eq_reported (r : Receipt) (l : Location) :
    r.event.change l = incremented l [r] + caughtUp l [r] - caughtUp l.opposite [r] := by
  rw [incremented_singleton, caughtUp_singleton, caughtUp_singleton]
  by_cases hl : l = r.event.update.location
  · subst hl
    rw [Event.change_self]
    cases hm : r.event.moves <;> simp [Ne.symm (Location.opposite_ne _)]
  · rw [Event.change_of_ne hl, Location.eq_opposite_of_ne hl]
    cases hm : r.event.moves <;>
      simp [Ne.symm (Location.opposite_ne _)]

/-- The receipts account for a bucket. -/
structure Accounts (rs : List Receipt) (b : Bucket) : Prop where
  density (l : Location) :
    (b.density l : Int) = incremented l rs + caughtUp l rs - caughtUp l.opposite rs.tail
  createdAt : rs.head?.map (·.now) = some b.createdAt
  lastUpdated : rs.getLast?.map (·.now) = some b.lastUpdated
  answer : rs.getLast?.map (·.bucket) = some b

/-- The receipts account for what a store holds under a key. -/
def Balanced (rs : List Receipt) : Option Bucket → Prop
  | none => rs = []
  | some b => Accounts rs b

theorem Accounts.ne_nil {rs : List Receipt} {b : Bucket} (h : Accounts rs b) : rs ≠ [] := by
  rintro rfl
  exact absurd h.answer (by simp)

/-- The receipt of the first event accounts for the new bucket. -/
theorem accounts_first {e : Event} {b : Bucket} {now : Int} (h : Bucket.receive e none now = .ok b) :
    Accounts [⟨e, now, b⟩] b := by
  obtain ⟨hb, -⟩ := Bucket.receive_none h
  refine ⟨fun l => ?_, congrArg some hb.createdAt.symm, congrArg some hb.lastUpdated.symm, rfl⟩
  rw [incremented_singleton, caughtUp_singleton]
  by_cases hl : l = e.update.location
  · subst hl
    rw [hb.here]
    cases hm : e.moves <;> simp [caughtUp]
  · rw [Location.eq_opposite_of_ne hl, hb.there]
    simp [caughtUp, Ne.symm (Location.opposite_ne _)]

/-- A later receipt accounts for the changed bucket. -/
theorem Accounts.snoc {rs : List Receipt} {e : Event} {old b : Bucket} {now : Int}
    (hrs : Accounts rs old) (h : Bucket.receive e (some old) now = .ok b) :
    Accounts (rs ++ [⟨e, now, b⟩]) b := by
  obtain ⟨hA, hu⟩ := Bucket.receive_some h
  obtain ⟨r, rest, rfl⟩ := List.exists_cons_of_ne_nil hrs.ne_nil
  refine ⟨fun l => ?_, ?_, ?_, ?_⟩
  · have hold := hrs.density l
    rw [List.tail_cons] at hold
    rw [List.cons_append, List.tail_cons, ← List.cons_append, incremented_append, caughtUp_append,
      caughtUp_append, hA.density l, hold, change_eq_reported ⟨e, now, b⟩ l]
    push_cast
    omega
  · rw [hA.createdAt, ← hrs.createdAt]
    rfl
  · rw [List.getLast?_concat, hu]
    rfl
  · rw [List.getLast?_concat]
    rfl

/-! ## Every history is balanced -/

/-- Under every key a store holds what the receipts account for. -/
def History.Balanced (h : History) : Prop :=
  ∀ device g start, ∃ old, h.store.bucket device g start = .ok old ∧
    Rollup.Balanced (h.receiptsOf device g start) old

theorem receiptsOf_snoc_self {rs : List Receipt} {m m' : Memory} (r : Receipt) :
    (History.mk (rs ++ [r]) m').receiptsOf r.event.update.device r.event.update.granularity
        r.event.update.bucketStart =
      (History.mk rs m).receiptsOf r.event.update.device r.event.update.granularity
        r.event.update.bucketStart ++ [r] := by
  simp [History.receiptsOf, List.filter_append]

theorem receiptsOf_snoc_of_ne {rs : List Receipt} {m m' : Memory} {r : Receipt} {device : String}
    {g : Granularity} {start : Int}
    (h : ¬ (r.event.update.device = device ∧ r.event.update.granularity = g ∧
      r.event.update.bucketStart = start)) :
    (History.mk (rs ++ [r]) m').receiptsOf device g start =
      (History.mk rs m).receiptsOf device g start := by
  simp only [History.receiptsOf, List.filter_append, List.filter_cons, List.filter_nil]
  simp [h]

theorem balanced_accepted {h : History} {a : Arrival} {old : Option Bucket} {b : Bucket}
    (hb : h.Balanced) (ha : Accepted a.event (h.desk a) old b) :
    History.Balanced ⟨h.receipts ++ [⟨a.event, a.clock.now, b⟩], (h.desk a).store.store b.item⟩ := by
  intro device g start
  obtain ⟨hd, hg, hs⟩ := ha.names
  by_cases hk : b.device = device ∧ b.granularity = g ∧ b.start = start
  · obtain ⟨rfl, rfl, rfl⟩ := hk
    refine ⟨some b, Memory.bucket_store_item _ _, ?_⟩
    rw [hd, hg, hs, receiptsOf_snoc_self (m := h.store) ⟨a.event, a.clock.now, b⟩]
    obtain ⟨old', hold', hbal⟩ := hb a.event.update.device a.event.update.granularity
      a.event.update.bucketStart
    have hsame : old = old' := by
      have := ha.stored
      rw [History.bucket_desk, hold'] at this
      exact (Except.ok.inj this).symm
    subst hsame
    cases old with
    | none =>
      have hnil : h.receiptsOf _ _ _ = [] := hbal
      rw [show (History.mk h.receipts h.store) = h from rfl, hnil]
      exact accounts_first ha.received
    | some old => exact Accounts.snoc hbal ha.received
  · rw [hd, hg, hs] at hk
    obtain ⟨old', hold', hbal⟩ := hb device g start
    refine ⟨old', ?_, ?_⟩
    · rw [Memory.bucket_store_of_ne _ _ (by rwa [hd, hg, hs]), History.bucket_desk, hold']
    · rw [receiptsOf_snoc_of_ne (m := h.store) hk]
      exact hbal

theorem balanced_of (arrivals : List Arrival) : (History.of arrivals).Balanced :=
  History.of_induct (P := History.Balanced) (fun _ _ _ => ⟨none, rfl, rfl⟩)
    (fun _ _ _ _ hb ha => balanced_accepted hb ha) (fun _ _ hb => hb) arrivals

/-- The video of an accounted bucket was newly observed, but for that of a first catchup. -/
theorem Accounts.total {r : Receipt} {rs : List Receipt} {b : Bucket} (h : Accounts (r :: rs) b) :
    b.total = incremented .cloud (r :: rs) + incremented .device (r :: rs) +
      if r.event.moves then r.event.update.duration else 0 := by
  have hc := h.density .cloud
  have hd := h.density .device
  rw [List.tail_cons, caughtUp_cons, caughtUp_singleton] at hc hd
  unfold Bucket.total
  simp only [Bucket.density, Location.opposite] at hc hd
  cases hm : r.event.moves <;> cases hl : r.event.update.location <;>
    simp [hm, hl] at hc hd ⊢ <;> omega

/-- **The ledger.** A bucket holds what its accepted saves come to in whole numbers, and the stamps
of the first and of the last of them. -/
theorem loaded_eq_ledger (arrivals : List Arrival) (device : String) (g : Granularity) (start : Int) :
    let h := History.of arrivals
    let rs := h.receiptsOf device g start
    ((h.store.find? ⟨Bucket.partition device g, start⟩).isSome ↔ rs ≠ []) ∧
      (∀ desk : Desk Memory, desk.store.rows = h.store.rows → desk.store.faults.get = false →
        load Memory.backend device g start desk = (.ok (rs.getLast?.map (·.bucket)), desk)) ∧
      ∀ first ∈ rs.head?, ∀ last ∈ rs.getLast?,
        (∀ l, (last.bucket.density l : Int) =
          incremented l rs + caughtUp l rs - caughtUp l.opposite rs.tail) ∧
        last.bucket.total = incremented .cloud rs + incremented .device rs +
          (if first.event.moves then first.event.update.duration else 0) ∧
        last.bucket.createdAt = first.now ∧ last.bucket.lastUpdated = last.now := by
  intro h rs
  obtain ⟨old, hold, hbal⟩ := balanced_of arrivals device g start
  have hload : ∀ desk : Desk Memory, desk.store.rows = h.store.rows → desk.store.faults.get = false →
      load Memory.backend device g start desk = (.ok old, desk) :=
    fun desk hrows hget => load_eq_ok hget ((Memory.entry_congr hrows _).trans hold)
  rw [Memory.isSome_find? hold]
  cases old with
  | none =>
    have hrs : rs = [] := hbal
    rw [hrs]
    exact ⟨by simp, hload, fun first hf => by simp at hf⟩
  | some b =>
    have hA : Accounts rs b := hbal
    refine ⟨by simp [hA.ne_nil], by rwa [hA.answer], fun first hf last hl => ?_⟩
    obtain ⟨rest, hcons⟩ : ∃ rest, rs = first :: rest := List.head?_eq_some_iff.1 hf
    have hcr := hA.createdAt
    have hlu := hA.lastUpdated
    have hb := hA.answer
    rw [Option.mem_def.1 hf] at hcr
    rw [Option.mem_def.1 hl] at hlu hb
    obtain rfl := Option.some.inj hb
    refine ⟨hA.density, ?_, (Option.some.inj hcr).symm, (Option.some.inj hlu).symm⟩
    rw [hcons] at hA ⊢
    exact hA.total

/-- Half a second on the device, reported at 7, of which a fifth of a second has moved to the cloud at
9; what was reported at 8 was not written. -/
theorem loaded_eq_ledger_catchup :
    let u : Update := ⟨"d", .hours, 3600000, 500, .device⟩
    let moved : Update := ⟨"d", .hours, 3600000, 200, .cloud⟩
    let h := History.of [⟨.increment u, ⟨7, 0⟩, {}⟩, ⟨.increment u, ⟨8, 0⟩, { put := true }⟩,
      ⟨.catchup moved, ⟨9, 0⟩, {}⟩]
    let b : Bucket := ⟨"d", .hours, 3600000, 200, 300, 7, 9⟩
    load Memory.backend "d" .hours 3600000 ⟨h.store, ⟨0, 0⟩⟩ = (.ok (some b), ⟨h.store, ⟨0, 0⟩⟩) ∧
      (b.density .device : Int) = incremented .device h.receipts + caughtUp .device h.receipts -
        caughtUp .cloud h.receipts.tail ∧ b.total = 500 ∧ b.createdAt = 7 ∧ b.lastUpdated = 9 := by
  intro u moved h b
  have hall : h.receiptsOf "d" .hours 3600000 = h.receipts := by decide +kernel
  have hrs : h.receipts =
      [⟨.increment u, 7, ⟨"d", .hours, 3600000, 0, 500, 7, 7⟩⟩, ⟨.catchup moved, 9, b⟩] := by
    decide +kernel
  obtain ⟨-, hload, hlast⟩ := loaded_eq_ledger [⟨.increment u, ⟨7, 0⟩, {}⟩,
    ⟨.increment u, ⟨8, 0⟩, { put := true }⟩, ⟨.catchup moved, ⟨9, 0⟩, {}⟩] "d" .hours 3600000
  obtain ⟨hd, ht, hc, hu⟩ := hlast _ (by rw [show History.receiptsOf _ _ _ _ = _ from hall, hrs]; rfl)
    ⟨.catchup moved, 9, b⟩ (by rw [show History.receiptsOf _ _ _ _ = _ from hall, hrs]; rfl)
  refine ⟨?_, ?_, ?_, hc, hu⟩
  · rw [hload ⟨h.store, ⟨0, 0⟩⟩ rfl (by decide +kernel),
      show History.receiptsOf _ _ _ _ = _ from hall, hrs]
    rfl
  · have := hd .device
    rwa [show History.receiptsOf _ _ _ _ = _ from hall] at this
  · rw [show History.receiptsOf _ _ _ _ = _ from hall, hrs] at ht
    exact ht

end Footage.Rollup
