import Footage.Proofs.Partitions
import Footage.Proofs.Rollup.Items
import Footage.Proofs.Store.Entries

/-!
# A save in memory

`save_eq` gives the answer of a save and the store after it in one equation: the checks come in the
order of the equation, and only the last line changes the items. A save `Passes` every check or is
`Refused` by the first that fails, for a reason that the store and the event tell without the save
(`passes_or_refused`). What later modules use is `save_cases`: an accepted save stores the merged
bucket, and any other save stores nothing.
-/

namespace Footage

namespace Memory

/-- The bucket that a store holds. -/
def bucket (m : Memory) (device : String) (g : Granularity) (start : Int) :
    Except AttributeError (Option Bucket) :=
  m.entry (Bucket.ofItem device g) ⟨Bucket.partition device g, start⟩

theorem bucket_store_item (m : Memory) (b : Bucket) :
    (m.store b.item).bucket b.device b.granularity b.start = .ok (some b) :=
  m.entry_store_self b.ofItem_item

theorem bucket_store_of_ne (m : Memory) (b : Bucket) {device : String} {g : Granularity} {start : Int}
    (h : ¬ (b.device = device ∧ b.granularity = g ∧ b.start = start)) :
    (m.store b.item).bucket device g start = m.bucket device g start := by
  refine m.entry_store_of_ne b.item fun hk => ?_
  rw [Bucket.key_item, Bucket.key, Key.mk.injEq, Bucket.partition_inj] at hk
  exact h ⟨hk.1.1.symm, hk.1.2.symm, hk.2.symm⟩

theorem bucket_eq_ok_iff {m : Memory} {device : String} {g : Granularity} {start : Int}
    {old : Option Bucket} : m.bucket device g start = .ok old ↔
      Option.Rel (Bucket.ReadFrom device g) (m.find? ⟨Bucket.partition device g, start⟩) old := by
  unfold bucket
  rw [entry_eq_ok_iff]
  simp only [Bucket.ofItem_eq_ok_iff]

end Memory

/-- The key of the bucket that an update names. -/
def Update.key (u : Update) : Key := ⟨Bucket.partition u.device u.granularity, u.bucketStart⟩

namespace Rollup

theorem load_eq (device : String) (g : Granularity) (start : Int) (desk : Desk Memory) :
    load Memory.backend device g start desk =
      if desk.store.faults.get then
        (.error (.store (.outage (.get ⟨Bucket.partition device g, start⟩))), desk)
      else ((desk.store.bucket device g start).mapError .unreadable, desk) :=
  Memory.load_entry (Bucket.ofItem device g) _ desk

theorem load_eq_ok {device : String} {g : Granularity} {start : Int} {desk : Desk Memory}
    {old : Option Bucket} (hg : desk.store.faults.get = false)
    (h : desk.store.bucket device g start = .ok old) :
    load Memory.backend device g start desk = (.ok old, desk) := by
  rw [load_eq, hg, h]
  rfl

/-- The part of a save that comes after the check of the bucket's start. -/
def merged (e : Event) (desk : Desk Memory) : Except Failure Bucket × Desk Memory :=
  match (load Memory.backend e.update.device e.update.granularity e.update.bucketStart desk).1 with
  | .error f => (.error f, desk)
  | .ok old =>
    let later := { desk with clock := desk.clock.advance }
    match Bucket.receive e old desk.clock.now with
    | .error f => (.error (.consistency f), later)
    | .ok b =>
      if desk.store.faults.put then (.error (.store (.outage (.put b.key))), later)
      else (.ok b, { later with store := desk.store.store b.item })

theorem receive_total_le {e : Event} {old : Option Bucket} {b : Bucket} {now : Int}
    (h : Bucket.receive e old now = .ok b) : b.total ≤ b.capacity := by
  cases old with
  | none => exact (Bucket.receive_none h).2
  | some old => exact (Bucket.receive_some h).1.total_le

/-- The bucket after an event is one of its device, if the one before was. -/
theorem receive_names {e : Event} {old : Option Bucket} {b : Bucket} {now : Int}
    (hold : ∀ c ∈ old, c.device = e.update.device ∧ c.granularity = e.update.granularity)
    (h : Bucket.receive e old now = .ok b) :
    b.device = e.update.device ∧ b.granularity = e.update.granularity ∧
      b.start = (old.map (·.start)).getD e.update.bucketStart := by
  cases old with
  | none =>
    obtain ⟨hb, -⟩ := Bucket.receive_none h
    exact ⟨hb.device, hb.granularity, hb.start⟩
  | some old =>
    have hA := (Bucket.receive_some h).1
    obtain ⟨hd, hg⟩ := hold old rfl
    exact ⟨hA.device.trans hd, hA.granularity.trans hg, hA.start⟩

theorem save_eq (e : Event) (desk : Desk Memory) :
    save Memory.backend e desk =
      if e.update.granularity.Aligned e.update.bucketStart then merged e desk
      else (.error (.request (.misaligned e.update.granularity e.update.bucketStart)), desk) := by
  unfold save
  by_cases ha : e.update.granularity.Aligned e.update.bucketStart
  · simp only [ha, if_true]
    unfold merged
    rw [Task.bind_apply, load_eq]
    by_cases hf : desk.store.faults.get
    · simp [hf]
    · simp only [hf, if_false, Bool.false_eq_true]
      cases desk.store.bucket e.update.device e.update.granularity e.update.bucketStart with
      | error => rfl
      | ok old =>
        simp only [mapError_ok, Task.bind_apply, Desk.readClock]
        cases hr : Bucket.receive e old desk.clock.now with
        | error => rfl
        | ok b =>
          simp only [Desk.check, Task.pure_apply, Bucket.toItem_eq (receive_total_le hr),
            Desk.onStore, Memory.backend, Memory.write]
          by_cases hp : desk.store.faults.put
          · simp [hp]
          · simp [hp]
  · simp only [ha, if_false]
    rfl

/-- A save that is accepted: the bucket `b` comes from the stored one and takes its place. -/
structure Accepted (e : Event) (desk : Desk Memory) (old : Option Bucket) (b : Bucket) : Prop where
  aligned : e.update.granularity.Aligned e.update.bucketStart
  stored : desk.store.bucket e.update.device e.update.granularity e.update.bucketStart = .ok old
  received : Bucket.receive e old desk.clock.now = .ok b
  answer : save Memory.backend e desk = (.ok b, ⟨desk.store.store b.item, desk.clock.advance⟩)

/-- A stored bucket is the one that is asked for. -/
theorem names_of_bucket {m : Memory} {device : String} {g : Granularity} {start : Int} {c : Bucket}
    (h : m.bucket device g start = .ok (some c)) : c.device = device ∧ c.granularity = g ∧ c.start = start := by
  obtain ⟨i, hi, ho⟩ := Memory.find?_of_entry_eq_some h
  obtain ⟨hd, hg, hst⟩ := Bucket.parts_of_ofItem ho
  exact ⟨hd, hg, by rw [hst, Memory.key_of_find? hi]⟩

/-- The bucket after an event is the one that the event names. -/
theorem names_of_receive {m : Memory} {e : Event} {old : Option Bucket} {b : Bucket} {now : Int}
    (hs : m.bucket e.update.device e.update.granularity e.update.bucketStart = .ok old)
    (h : Bucket.receive e old now = .ok b) : b.device = e.update.device ∧
      b.granularity = e.update.granularity ∧ b.start = e.update.bucketStart := by
  have hread : ∀ c ∈ old, c.device = e.update.device ∧ c.granularity = e.update.granularity ∧
      c.start = e.update.bucketStart := by
    intro c hc
    obtain rfl := hc
    exact names_of_bucket hs
  obtain ⟨hd, hg, hst⟩ := receive_names (fun c hc => ⟨(hread c hc).1, (hread c hc).2.1⟩) h
  refine ⟨hd, hg, hst.trans ?_⟩
  cases old with
  | none => rfl
  | some c => exact (hread c rfl).2.2

/-- The bucket after an event is stored under the key that the event names. -/
theorem key_of_receive {m : Memory} {e : Event} {old : Option Bucket} {b : Bucket} {now : Int}
    (hs : m.bucket e.update.device e.update.granularity e.update.bucketStart = .ok old)
    (h : Bucket.receive e old now = .ok b) : b.key = e.update.key := by
  obtain ⟨hd, hg, hst⟩ := names_of_receive hs h
  unfold Bucket.key Update.key
  rw [hd, hg, hst]

/-- Every check of a save passes: the bucket `b` comes from the stored one, `old`. -/
structure Passes (e : Event) (desk : Desk Memory) (old : Option Bucket) (b : Bucket) : Prop where
  aligned : e.update.granularity.Aligned e.update.bucketStart
  reachable : desk.store.faults.get = false
  stored : Option.Rel (Bucket.ReadFrom e.update.device e.update.granularity)
    (desk.store.find? e.update.key) old
  received : Bucket.receive e old desk.clock.now = .ok b
  writable : desk.store.faults.put = false

/-- A check of a save fails, and those before it pass. -/
inductive Refused (e : Event) (desk : Desk Memory) : Failure → Prop
  | misaligned (ha : ¬ e.update.granularity.Aligned e.update.bucketStart) :
    Refused e desk (.request (.misaligned e.update.granularity e.update.bucketStart))
  | unreachable (ha : e.update.granularity.Aligned e.update.bucketStart)
    (hg : desk.store.faults.get = true) :
    Refused e desk (.store (.outage (.get e.update.key)))
  | unreadable (ha : e.update.granularity.Aligned e.update.bucketStart)
    (hg : desk.store.faults.get = false) {i : Item} (hi : desk.store.find? e.update.key = some i)
    {f : AttributeError} (hf : i.FirstUnusable f Bucket.asked) :
    Refused e desk (.unreadable f)
  | inconsistent (ha : e.update.granularity.Aligned e.update.bucketStart)
    (hg : desk.store.faults.get = false) {old : Option Bucket}
    (hs : Option.Rel (Bucket.ReadFrom e.update.device e.update.granularity)
      (desk.store.find? e.update.key) old)
    {f : BucketError} (hr : Bucket.receive e old desk.clock.now = .error f) :
    Refused e desk (.consistency f)
  | unwritable (ha : e.update.granularity.Aligned e.update.bucketStart)
    (hg : desk.store.faults.get = false) {old : Option Bucket}
    (hs : Option.Rel (Bucket.ReadFrom e.update.device e.update.granularity)
      (desk.store.find? e.update.key) old)
    {b : Bucket} (hr : Bucket.receive e old desk.clock.now = .ok b)
    (hp : desk.store.faults.put = true) :
    Refused e desk (.store (.outage (.put e.update.key)))

theorem Passes.accepted {e : Event} {desk : Desk Memory} {old : Option Bucket} {b : Bucket}
    (h : Passes e desk old b) : Accepted e desk old b := by
  have hstored := Memory.bucket_eq_ok_iff.2 h.stored
  refine ⟨h.aligned, hstored, h.received, ?_⟩
  rw [save_eq, if_pos h.aligned]
  unfold merged
  rw [load_eq_ok h.reachable hstored]
  simp [h.received, h.writable]

/-- A refused save fails for its reason and leaves the store as it is. -/
theorem Refused.save_eq {e : Event} {desk : Desk Memory} {f : Failure} (h : Refused e desk f) :
    ∃ clock, save Memory.backend e desk = (.error f, ⟨desk.store, clock⟩) := by
  cases h with
  | misaligned ha =>
    exact ⟨_, by rw [Rollup.save_eq, if_neg ha]⟩
  | unreachable ha hg =>
    rw [Rollup.save_eq, if_pos ha]
    unfold merged
    rw [load_eq, if_pos hg]
    exact ⟨_, rfl⟩
  | unreadable ha hg hi hf =>
    have hb : desk.store.bucket e.update.device e.update.granularity e.update.bucketStart = .error _ :=
      Memory.entry_eq_error_iff.2 ⟨_, hi, Bucket.ofItem_eq_error_iff.2 hf⟩
    rw [Rollup.save_eq, if_pos ha]
    unfold merged
    rw [load_eq, hg, hb]
    exact ⟨_, rfl⟩
  | inconsistent ha hg hs hr =>
    rw [Rollup.save_eq, if_pos ha]
    unfold merged
    rw [load_eq_ok hg (Memory.bucket_eq_ok_iff.2 hs)]
    simp only [hr]
    exact ⟨_, rfl⟩
  | unwritable ha hg hs hr hp =>
    have hstored := Memory.bucket_eq_ok_iff.2 hs
    rw [Rollup.save_eq, if_pos ha]
    unfold merged
    rw [load_eq_ok hg hstored]
    simp only [hr, hp, if_true, key_of_receive hstored hr]
    exact ⟨_, rfl⟩

theorem passes_or_refused (e : Event) (desk : Desk Memory) :
    (∃ old b, Passes e desk old b) ∨ ∃ f, Refused e desk f := by
  by_cases ha : ¬ e.update.granularity.Aligned e.update.bucketStart
  · exact .inr ⟨_, .misaligned ha⟩
  rw [Decidable.not_not] at ha
  by_cases hg : desk.store.faults.get = true
  · exact .inr ⟨_, .unreachable ha hg⟩
  rw [Bool.not_eq_true] at hg
  cases hb : desk.store.bucket e.update.device e.update.granularity e.update.bucketStart with
  | error f =>
    obtain ⟨i, hi, hf⟩ := Memory.entry_eq_error_iff.1 hb
    exact .inr ⟨_, .unreadable ha hg hi (Bucket.ofItem_eq_error_iff.1 hf)⟩
  | ok old =>
    have hs := Memory.bucket_eq_ok_iff.1 hb
    cases hr : Bucket.receive e old desk.clock.now with
    | error f => exact .inr ⟨_, .inconsistent ha hg hs hr⟩
    | ok b =>
      by_cases hp : desk.store.faults.put = true
      · exact .inr ⟨_, .unwritable ha hg hs hr hp⟩
      · exact .inl ⟨old, b, ha, hg, hs, hr, by simpa using hp⟩

theorem save_cases (e : Event) (desk : Desk Memory) :
    (∃ old b, Accepted e desk old b) ∨
      ∃ f clock, save Memory.backend e desk = (.error f, ⟨desk.store, clock⟩) := by
  rcases passes_or_refused e desk with ⟨old, b, h⟩ | ⟨f, h⟩
  · exact .inl ⟨old, b, h.accepted⟩
  · exact .inr ⟨f, h.save_eq⟩

namespace Accepted

variable {e : Event} {desk : Desk Memory} {old : Option Bucket} {b : Bucket}

/-- The bucket is the one that the event names. -/
theorem names (h : Accepted e desk old b) : b.device = e.update.device ∧
    b.granularity = e.update.granularity ∧ b.start = e.update.bucketStart :=
  names_of_receive h.stored h.received

theorem total_le (h : Accepted e desk old b) : b.total ≤ b.capacity := receive_total_le h.received

/-- The store holds the bucket from then on. -/
theorem stored_after (h : Accepted e desk old b) :
    (desk.store.store b.item).bucket e.update.device e.update.granularity e.update.bucketStart =
      .ok (some b) := by
  obtain ⟨hd, hg, hs⟩ := h.names
  rw [← hd, ← hg, ← hs]
  exact desk.store.bucket_store_item b

end Accepted

end Rollup

end Footage
