import Footage.Proofs.Archive.Items
import Footage.Proofs.Partitions
import Footage.Proofs.Store.Entries

/-!
# A report in memory

A report `Passes` every check or is `Refused` by the first that fails (`passes_or_refused`). An
accepted one leaves a record that already says so, or that says that the fragment is in the cloud while
the report does not (`Keeps`), and revises any other record; a failed one changes nothing
(`save_cases`). Whether a report keeps the record is decided by a check before the write and by the
guard of the write together.
-/

namespace Footage

namespace Memory

/-- The record that a store holds. -/
def record (m : Memory) (device : String) (timestamp : Int) : Except AttributeError (Option Fragment) :=
  m.entry (Fragment.ofItem device) ⟨Fragment.partition device, timestamp⟩

theorem record_store_item (m : Memory) (f : Fragment) :
    (m.store f.item).record f.device f.timestamp = .ok (some f) :=
  m.entry_store_self f.ofItem_item

theorem record_store_of_ne (m : Memory) (f : Fragment) {device : String} {timestamp : Int}
    (h : ¬ (f.device = device ∧ f.timestamp = timestamp)) :
    (m.store f.item).record device timestamp = m.record device timestamp := by
  refine m.entry_store_of_ne f.item fun hk => ?_
  rw [Fragment.key_item, Fragment.key, Key.mk.injEq, Fragment.partition_inj] at hk
  exact h ⟨hk.1.symm, hk.2.symm⟩

theorem record_eq_ok_iff {m : Memory} {device : String} {timestamp : Int} {old : Option Fragment} :
    m.record device timestamp = .ok old ↔
      Option.Rel (Fragment.ReadFrom device) (m.find? ⟨Fragment.partition device, timestamp⟩) old := by
  unfold record
  rw [entry_eq_ok_iff]
  simp only [Fragment.ofItem_eq_ok_iff]

/-- The guard of a write for the device asks for what the record says. -/
theorem notInCloud_holds {m : Memory} {device : String} {timestamp : Int} {old : Option Fragment}
    (h : m.record device timestamp = .ok old) :
    Fragment.notInCloud.Holds (m.find? ⟨Fragment.partition device, timestamp⟩) ↔
      ∀ f ∈ old, f.location ≠ .cloud := by
  cases old with
  | none =>
    rw [find?_of_entry_eq_none h]
    simp [Condition.Holds]
  | some f =>
    obtain ⟨i, hi, ho⟩ := find?_of_entry_eq_some h
    obtain ⟨-, -, hl⟩ := Fragment.parts_of_ofItem ho
    rw [hi]
    simp only [Condition.Holds, Option.mem_some_iff, forall_eq', Fragment.notInCloud]
    rw [hl, ne_eq, Option.some.injEq, Attribute.text.injEq, Location.name_injective.eq_iff]

end Memory

namespace Archive

variable {p : Paging} {device : String} {timestamp : Int} {duration : Nat} {l : Location}
  {desk : Desk Memory} {old : Option Fragment}

theorem load_eq (device : String) (timestamp : Int) (desk : Desk Memory) :
    load Memory.backend device timestamp desk =
      if desk.store.faults.get then
        (.error (.store (.outage (.get ⟨Fragment.partition device, timestamp⟩))), desk)
      else ((desk.store.record device timestamp).mapError .unreadable, desk) :=
  Memory.load_entry (Fragment.ofItem device) _ desk

theorem load_eq_ok (hg : desk.store.faults.get = false) (h : desk.store.record device timestamp = .ok old) :
    load Memory.backend device timestamp desk = (.ok old, desk) := by
  rw [load_eq, hg, h]
  rfl

/-- A report leaves the record as it is: it says so already, or that the fragment is in the cloud. -/
def Keeps (old : Option Fragment) (duration : Nat) (l : Location) : Prop :=
  ∃ f ∈ old, f.Says duration l ∨ f.location = .cloud ∧ l = .device

instance (old : Option Fragment) (duration : Nat) (l : Location) : Decidable (Keeps old duration l) :=
  match old with
  | none => isFalse (by simp [Keeps])
  | some f => decidable_of_iff (f.Says duration l ∨ f.location = .cloud ∧ l = .device) (by simp [Keeps])

theorem not_keeps_none (duration : Nat) (l : Location) : ¬ Keeps none duration l := by simp [Keeps]

/-- What the check before the write has not found is left to the guard. -/
theorem keeps_iff_of_other (h : ¬ old.any (·.Says duration l)) :
    Keeps old duration l ↔ l = .device ∧ ¬ ∀ f ∈ old, f.location ≠ .cloud := by
  cases old with
  | none => simp [Keeps]
  | some f =>
    have hs : ¬ f.Says duration l := by simpa using h
    simp [Keeps, hs, and_comm]

/-- The guard of a write for a location. -/
def guardFor : Location → Option Condition
  | .cloud => none
  | .device => some Fragment.notInCloud

/-- The write of a record whose duration is a stored number. -/
def writeOf (f : Fragment) : Write := ⟨f.item, guardFor f.location⟩

theorem eq_writeOf_of_toWrite {f : Fragment} {w : Write} (h : f.toWrite = .ok w) : w = writeOf f := by
  unfold Fragment.toWrite at h
  obtain ⟨i, hi, h⟩ := bind_eq_ok.1 h
  by_cases hd : (f.duration : Int) ≤ Stamp.greatest
  · rw [Fragment.toItem_eq hd] at hi
    obtain rfl := Except.ok.inj hi
    obtain rfl := Except.ok.inj h
    unfold writeOf guardFor
    cases f.location <;> rfl
  · unfold Fragment.toItem at hi
    rw [if_neg hd] at hi
    exact absurd hi (by simp)

theorem toWrite_revise (h : (duration : Int) ≤ Stamp.greatest) (now : Int) :
    (revise p device timestamp duration l old now).toWrite =
      .ok ⟨(revise p device timestamp duration l old now).item, guardFor l⟩ := by
  unfold Fragment.toWrite
  rw [Fragment.toItem_eq h]
  cases l <;> rfl

/-- The write of a report that the check lets through is done unless the record is kept. -/
theorem attempt_eq {f : Fragment} (h : desk.store.record f.device f.timestamp = .ok old)
    (hs : ¬ old.any (·.Says duration l)) :
    attempt Memory.backend ⟨f.item, guardFor l⟩ desk.store =
      if desk.store.faults.put then (.error (.outage (.put f.key)), desk.store)
      else if Keeps old duration l then (.ok (), desk.store)
      else (.ok (), desk.store.store f.item) := by
  have hkeeps := keeps_iff_of_other hs
  have hguard := Memory.notInCloud_holds h
  unfold attempt
  simp only [Memory.backend, Memory.write, Fragment.key_item]
  by_cases hp : desk.store.faults.put
  · simp only [hp, if_true]
    cases l <;> rfl
  · simp only [hp, Bool.false_eq_true, if_false]
    cases l with
    | cloud =>
      have hk : ¬ Keeps old duration .cloud := by simp [hkeeps]
      simp [guardFor, hk]
    | device =>
      by_cases hc : ∀ f ∈ old, f.location ≠ .cloud
      · have hk : ¬ Keeps old duration .device := fun h => (hkeeps.1 h).2 hc
        have hholds : Fragment.notInCloud.Holds (desk.store.find? f.key) := hguard.2 hc
        simp [guardFor, hk, hholds]
      · have hk : Keeps old duration .device := hkeeps.2 ⟨rfl, hc⟩
        have hholds : ¬ Fragment.notInCloud.Holds (desk.store.find? f.key) := fun h => hc (hguard.1 h)
        simp [guardFor, hk, hholds]

/-- The store does not fail the report and can keep its duration, or need not do so. -/
def Possible (faults : Faults) (old : Option Fragment) (duration : Nat) (l : Location) : Prop :=
  faults.get = false ∧
    (old.any (·.Says duration l) ∨ faults.put = false ∧ (duration : Int) ≤ Stamp.greatest)

/-- A report is accepted: it keeps the record `old`, or it revises it at the reading of the clock. -/
structure Accepted (p : Paging) (device : String) (timestamp : Int) (duration : Nat) (l : Location)
    (desk : Desk Memory) (old : Option Fragment) : Prop where
  stored : desk.store.record device timestamp = .ok old
  possible : Possible desk.store.faults old duration l
  kept : Keeps old duration l → ∃ clock,
    save Memory.backend p device timestamp duration l desk = (.ok (), ⟨desk.store, clock⟩)
  revised : ¬ Keeps old duration l →
    save Memory.backend p device timestamp duration l desk = (.ok (), ⟨desk.store.store
      (revise p device timestamp duration l old desk.clock.now).item, desk.clock.advance⟩)

/-- A report that cannot be compared with the record changes nothing. -/
theorem save_of_load_eq_error {f : Failure}
    (h : load Memory.backend device timestamp desk = (.error f, desk)) :
    save Memory.backend p device timestamp duration l desk = (.error f, desk) := by
  unfold save
  rw [Task.bind_apply, h]

theorem save_of_same (h : load Memory.backend device timestamp desk = (.ok old, desk))
    (hs : old.any (·.Says duration l)) :
    save Memory.backend p device timestamp duration l desk = (.ok (), desk) := by
  unfold save
  rw [Task.bind_apply, h]
  simp only [hs, if_true]
  rfl

/-- A report that says something else: the checks come in this order, and only where nothing is kept
the items change. -/
theorem save_of_other (hg : desk.store.faults.get = false)
    (hrec : desk.store.record device timestamp = .ok old) (hs : ¬ old.any (·.Says duration l)) :
    save Memory.backend p device timestamp duration l desk =
      let later := { desk with clock := desk.clock.advance }
      if (duration : Int) ≤ Stamp.greatest then
        if desk.store.faults.put then
          (.error (.store (.outage (.put ⟨Fragment.partition device, timestamp⟩))), later)
        else if Keeps old duration l then (.ok (), later)
        else (.ok (), ⟨desk.store.store (revise p device timestamp duration l old desk.clock.now).item,
          desk.clock.advance⟩)
      else (.error (.request (.durationTooLarge duration)), later) := by
  unfold save
  rw [Task.bind_apply, load_eq_ok hg hrec]
  simp only [hs, Bool.false_eq_true, if_false, Task.bind_apply, Desk.readClock]
  by_cases hd : (duration : Int) ≤ Stamp.greatest
  · have hwrite := attempt_eq (f := revise p device timestamp duration l old desk.clock.now) hrec hs
    rw [toWrite_revise hd]
    simp only [Desk.check, Task.pure_apply, Desk.onStore, hwrite, hd, if_true]
    by_cases hp : desk.store.faults.put
    · simp only [hp, if_true]
      rfl
    · by_cases hk : Keeps old duration l <;> simp [hp, hk]
  · have hrefused : (revise p device timestamp duration l old desk.clock.now).toWrite =
        .error (.durationTooLarge duration) := by
      unfold Fragment.toWrite Fragment.toItem
      rw [if_neg (by exact hd)]
      rfl
    rw [hrefused, if_neg hd]
    rfl

theorem keeps_of_same (h : old.any (·.Says duration l)) : Keeps old duration l := by
  obtain ⟨f, hf, hsays⟩ := (Option.any_eq_true _ _).1 h
  exact ⟨f, hf, .inl (of_decide_eq_true hsays)⟩

/-- Every check of a report passes, and `old` is the stored record. -/
structure Passes (device : String) (timestamp : Int) (duration : Nat) (l : Location)
    (desk : Desk Memory) (old : Option Fragment) : Prop where
  stored : Option.Rel (Fragment.ReadFrom device)
    (desk.store.find? ⟨Fragment.partition device, timestamp⟩) old
  possible : Possible desk.store.faults old duration l

/-- A check of a report fails, and those before it pass. A report that the record already says is not
checked any further. -/
inductive Refused (device : String) (timestamp : Int) (duration : Nat) (l : Location)
    (desk : Desk Memory) : Failure → Prop
  | unreachable (hg : desk.store.faults.get = true) :
    Refused device timestamp duration l desk
      (.store (.outage (.get ⟨Fragment.partition device, timestamp⟩)))
  | unreadable (hg : desk.store.faults.get = false) {i : Item}
    (hi : desk.store.find? ⟨Fragment.partition device, timestamp⟩ = some i) {f : AttributeError}
    (hf : i.FirstUnusable f Fragment.asked) :
    Refused device timestamp duration l desk (.unreadable f)
  | tooLong (hg : desk.store.faults.get = false) {old : Option Fragment}
    (hold : Option.Rel (Fragment.ReadFrom device)
      (desk.store.find? ⟨Fragment.partition device, timestamp⟩) old)
    (hs : ¬ old.any (·.Says duration l)) (hd : ¬ (duration : Int) ≤ Stamp.greatest) :
    Refused device timestamp duration l desk (.request (.durationTooLarge duration))
  | unwritable (hg : desk.store.faults.get = false) {old : Option Fragment}
    (hold : Option.Rel (Fragment.ReadFrom device)
      (desk.store.find? ⟨Fragment.partition device, timestamp⟩) old)
    (hs : ¬ old.any (·.Says duration l)) (hd : (duration : Int) ≤ Stamp.greatest)
    (hp : desk.store.faults.put = true) :
    Refused device timestamp duration l desk
      (.store (.outage (.put ⟨Fragment.partition device, timestamp⟩)))

theorem Passes.accepted (p : Paging) (h : Passes device timestamp duration l desk old) :
    Accepted p device timestamp duration l desk old := by
  have hrec := Memory.record_eq_ok_iff.2 h.stored
  obtain ⟨hg, hposs⟩ := h.possible
  refine ⟨hrec, h.possible, fun hk => ?_, fun hk => ?_⟩
  · by_cases hs : old.any (·.Says duration l)
    · exact ⟨_, save_of_same (load_eq_ok hg hrec) hs⟩
    · obtain ⟨hp, hd⟩ := hposs.resolve_left hs
      rw [save_of_other hg hrec hs]
      simp only [hd, hp, hk, if_true, Bool.false_eq_true, if_false]
      exact ⟨_, rfl⟩
  · have hs : ¬ old.any (·.Says duration l) := fun hs => hk (keeps_of_same hs)
    obtain ⟨hp, hd⟩ := hposs.resolve_left hs
    rw [save_of_other hg hrec hs]
    simp only [hd, hp, hk, if_true, Bool.false_eq_true, if_false]

/-- A refused report fails for its reason and leaves the store as it is. -/
theorem Refused.save_eq {f : Failure} (p : Paging) (h : Refused device timestamp duration l desk f) :
    ∃ clock, save Memory.backend p device timestamp duration l desk = (.error f, ⟨desk.store, clock⟩) := by
  cases h with
  | unreachable hg =>
    exact ⟨_, save_of_load_eq_error ((load_eq device timestamp desk).trans (if_pos hg))⟩
  | unreadable hg hi hf =>
    have hrec : desk.store.record device timestamp = .error _ :=
      Memory.entry_eq_error_iff.2 ⟨_, hi, Fragment.ofItem_eq_error_iff.2 hf⟩
    refine ⟨_, save_of_load_eq_error ?_⟩
    rw [load_eq, hg, hrec]
    rfl
  | tooLong hg hold hs hd =>
    rw [save_of_other hg (Memory.record_eq_ok_iff.2 hold) hs]
    simp only [hd, if_false]
    exact ⟨_, rfl⟩
  | unwritable hg hold hs hd hp =>
    rw [save_of_other hg (Memory.record_eq_ok_iff.2 hold) hs]
    simp only [hd, hp, if_true]
    exact ⟨_, rfl⟩

theorem passes_or_refused (device : String) (timestamp : Int) (duration : Nat) (l : Location)
    (desk : Desk Memory) : (∃ old, Passes device timestamp duration l desk old) ∨
      ∃ f, Refused device timestamp duration l desk f := by
  by_cases hg : desk.store.faults.get = true
  · exact .inr ⟨_, .unreachable hg⟩
  rw [Bool.not_eq_true] at hg
  cases hrec : desk.store.record device timestamp with
  | error f =>
    obtain ⟨i, hi, hf⟩ := Memory.entry_eq_error_iff.1 hrec
    exact .inr ⟨_, .unreadable hg hi (Fragment.ofItem_eq_error_iff.1 hf)⟩
  | ok old =>
    have hold := Memory.record_eq_ok_iff.1 hrec
    by_cases hs : old.any (·.Says duration l)
    · exact .inl ⟨old, hold, hg, .inl hs⟩
    by_cases hd : (duration : Int) ≤ Stamp.greatest
    · by_cases hp : desk.store.faults.put = true
      · exact .inr ⟨_, .unwritable hg hold hs hd hp⟩
      · exact .inl ⟨old, hold, hg, .inr ⟨by simpa using hp, hd⟩⟩
    · exact .inr ⟨_, .tooLong hg hold hs hd⟩

/-- A report is refused only where its record cannot be read or the report is not possible. -/
theorem Refused.not_possible {f : Failure} (h : Refused device timestamp duration l desk f)
    (hrec : desk.store.record device timestamp = .ok old) :
    ¬ Possible desk.store.faults old duration l := by
  rintro ⟨hget, hposs⟩
  have hsame {old' : Option Fragment} (hold : Option.Rel (Fragment.ReadFrom device)
      (desk.store.find? ⟨Fragment.partition device, timestamp⟩) old') : old' = old :=
    Except.ok.inj ((Memory.record_eq_ok_iff.2 hold).symm.trans hrec)
  cases h with
  | unreachable hg => exact absurd (hg.symm.trans hget) (by simp)
  | unreadable hg hi hf =>
    have hno : desk.store.record device timestamp = .error _ :=
      Memory.entry_eq_error_iff.2 ⟨_, hi, Fragment.ofItem_eq_error_iff.2 hf⟩
    exact absurd (hno.symm.trans hrec) (by simp)
  | tooLong hg hold hs hd =>
    obtain rfl := hsame hold
    exact hd (hposs.resolve_left hs).2
  | unwritable hg hold hs hd hp =>
    obtain rfl := hsame hold
    exact absurd (hp.symm.trans (hposs.resolve_left hs).1) (by simp)

theorem save_cases (p : Paging) (device : String) (timestamp : Int) (duration : Nat) (l : Location)
    (desk : Desk Memory) :
    (∃ old, Accepted p device timestamp duration l desk old) ∨
      (∀ old, desk.store.record device timestamp = .ok old →
        ¬ Possible desk.store.faults old duration l) ∧
      ∃ f clock, save Memory.backend p device timestamp duration l desk =
        (.error f, ⟨desk.store, clock⟩) := by
  rcases passes_or_refused device timestamp duration l desk with ⟨old, h⟩ | ⟨f, h⟩
  · exact .inl ⟨old, h.accepted p⟩
  · exact .inr ⟨fun old hrec => h.not_possible hrec, f, h.save_eq p⟩

/-- The record after an accepted report. -/
def outcome (p : Paging) (device : String) (timestamp : Int) (duration : Nat) (l : Location)
    (old : Option Fragment) (now : Int) : Option Fragment :=
  if Keeps old duration l then old else some (revise p device timestamp duration l old now)

/-- An accepted report changes no other record, and does not write what it keeps. -/
theorem Accepted.answer (h : Accepted p device timestamp duration l desk old) :
    ∃ desk', save Memory.backend p device timestamp duration l desk = (.ok (), desk') ∧
      (Keeps old duration l → desk'.store = desk.store) ∧
      desk'.store.record device timestamp =
        .ok (outcome p device timestamp duration l old desk.clock.now) ∧
      ∀ device' timestamp', ¬ (device = device' ∧ timestamp = timestamp') →
        desk'.store.record device' timestamp' = desk.store.record device' timestamp' := by
  unfold outcome
  by_cases hk : Keeps old duration l
  · obtain ⟨clock, hs⟩ := h.kept hk
    rw [if_pos hk]
    exact ⟨_, hs, fun _ => rfl, h.stored, fun _ _ _ => rfl⟩
  · rw [if_neg hk]
    exact ⟨_, h.revised hk, fun h => absurd h hk, Memory.record_store_item _ _,
      fun _ _ hne => Memory.record_store_of_ne _ _ hne⟩

/-- What an accepted report leaves is kept when the report comes again. -/
theorem keeps_outcome (p : Paging) (device : String) (timestamp : Int) (duration : Nat) (l : Location)
    (old : Option Fragment) (now : Int) :
    Keeps (outcome p device timestamp duration l old now) duration l := by
  unfold outcome
  by_cases hk : Keeps old duration l
  · rwa [if_pos hk]
  · rw [if_neg hk]
    exact ⟨_, rfl, .inl ⟨rfl, rfl⟩⟩

/-- An accepted report that comes again right away changes no item, whatever the clock reads. -/
theorem rows_save_again {desk' again : Desk Memory} {p' : Paging}
    (h : save Memory.backend p device timestamp duration l desk = (.ok (), desk'))
    (hrows : again.store.rows = desk'.store.rows) :
    (save Memory.backend p' device timestamp duration l again).2.store.rows = again.store.rows := by
  rcases save_cases p device timestamp duration l desk with ⟨old, ha⟩ | ⟨-, f, clock, hf⟩
  · obtain ⟨desk'', hs, -, hrec, -⟩ := ha.answer
    rw [h] at hs
    obtain rfl := (Prod.mk.inj hs).2
    rcases save_cases p' device timestamp duration l again with ⟨old', ha'⟩ | ⟨-, f, clock, hf⟩
    · have hold' := ha'.stored
      rw [Memory.record, Memory.entry_congr hrows] at hold'
      obtain rfl := Except.ok.inj (hrec.symm.trans hold')
      obtain ⟨clock, hs'⟩ := ha'.kept (keeps_outcome _ _ _ _ _ _ _)
      rw [hs']
    · rw [hf]
  · rw [hf] at h
    exact absurd (Prod.mk.inj h).1 (by simp)

end Archive

end Footage
