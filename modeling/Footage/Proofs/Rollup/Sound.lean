import Footage.Proofs.Rollup.History
import Footage.Proofs.Store.Reads

/-!
# Sound stores

A store of a rollup is sound if each of its items is the item of an aligned bucket within its
capacity. An accepted save stores such an item whatever the store held before, so every history has a
sound store (`sound_of`). In a sound store every bucket can be read.
-/

namespace Footage

namespace Memory

/-- Every item stores an aligned bucket within its capacity. -/
def Sound (m : Memory) : Prop :=
  ∀ i ∈ m.items, ∃ b : Bucket, b.item = i ∧ b.granularity.Aligned b.start ∧ b.total ≤ b.capacity

theorem Sound.congr {m m' : Memory} (h : m.Sound) (hrows : m'.rows = m.rows) : m'.Sound := by
  unfold Sound
  rw [items_congr hrows]
  exact h

theorem Sound.store {m : Memory} (h : m.Sound) {b : Bucket} (ha : b.granularity.Aligned b.start)
    (hb : b.total ≤ b.capacity) : (m.store b.item).Sound := by
  intro i hi
  rw [mem_items] at hi
  by_cases hk : i.key = b.item.key
  · rw [hk, find?_store_self] at hi
    exact ⟨b, Option.some.inj hi, ha, hb⟩
  · rw [find?_store_of_ne _ _ hk] at hi
    exact h i (mem_items.2 hi)

/-- The bucket of an item in the partition of a device. -/
theorem Sound.exists_bucket {m : Memory} (h : m.Sound) {device : String} {g : Granularity} {i : Item}
    (hi : i ∈ m.items) (hp : i.key.partition = Bucket.partition device g) :
    ∃ b : Bucket, Bucket.ofItem device g i = .ok b ∧ g.Aligned i.key.sort ∧ (b.total : Int) ≤ g.millis := by
  obtain ⟨b, rfl, ha, hb⟩ := h i hi
  obtain ⟨rfl, rfl⟩ := Bucket.partition_inj.1 hp
  have := b.granularity.millis_pos
  unfold Bucket.capacity at hb
  exact ⟨b, Bucket.ofItem_item b, ha, by omega⟩

theorem Sound.bucket_eq_ok {m : Memory} (h : m.Sound) (device : String) (g : Granularity)
    (start : Int) : ∃ old, m.bucket device g start = .ok old := by
  cases hi : m.find? ⟨Bucket.partition device g, start⟩ with
  | none => exact ⟨none, entry_of_find?_eq_none hi⟩
  | some i =>
    have hk := key_of_find? hi
    have hmem : i ∈ m.items := mem_items.2 (by rw [hk, hi])
    obtain ⟨b, hb, -⟩ := h.exists_bucket hmem (congrArg Key.partition hk)
    exact ⟨some b, entry_of_find? hi hb⟩

end Memory

namespace Rollup

theorem Accepted.sound {e : Event} {desk : Desk Memory} {old : Option Bucket} {b : Bucket}
    (ha : Accepted e desk old b) (hs : desk.store.Sound) : (desk.store.store b.item).Sound := by
  obtain ⟨-, hg, hst⟩ := ha.names
  have hal := ha.aligned
  rw [← hg, ← hst] at hal
  exact hs.store hal ha.total_le

/-- A save, accepted or not, leaves a sound store. -/
theorem sound_save {desk : Desk Memory} (hs : desk.store.Sound) (e : Event) :
    (save Memory.backend e desk).2.store.Sound := by
  rcases save_cases e desk with ⟨old, b, ha⟩ | ⟨f, clock, hf⟩
  · rw [ha.answer]
    exact ha.sound hs
  · rw [hf]
    exact hs

theorem sound_of (arrivals : List Arrival) : (History.of arrivals).store.Sound := by
  refine History.of_induct (P := fun h => h.store.Sound) (fun i hi => absurd hi (by simp [Memory.items,
    OrderedMap.empty])) ?_ (fun h a hs => hs.congr rfl) arrivals
  intro h a old b hs ha
  exact ha.sound (hs.congr rfl)

theorem load_ne_unreadable {desk : Desk Memory} (hs : desk.store.Sound) (device : String)
    (g : Granularity) (start : Int) (e : AttributeError) :
    (load Memory.backend device g start desk).1 ≠ .error (.unreadable e) := by
  rw [load_eq]
  by_cases hf : desk.store.faults.get
  · rw [if_pos hf]
    simp [Failure.unreadable]
  · rw [if_neg hf]
    obtain ⟨old, hold⟩ := hs.bucket_eq_ok device g start
    rw [hold]
    simp

/-- The densities of a merged bucket are stored numbers, whatever the store held before. -/
theorem save_ne_densityTooLarge (e : Event) (desk : Desk Memory) (d : Nat) :
    (save Memory.backend e desk).1 ≠ .error (.request (.densityTooLarge d)) := by
  rcases passes_or_refused e desk with ⟨old, b, h⟩ | ⟨f, h⟩
  · rw [h.accepted.answer]
    simp
  · obtain ⟨clock, hs⟩ := h.save_eq
    rw [hs]
    cases h <;> simp [Failure.unreadable]

/-- An accepted save leaves a bucket within its capacity, whatever the store held before. -/
theorem stored_of_save_eq_ok {e : Event} {desk desk' : Desk Memory} {b : Bucket}
    (h : save Memory.backend e desk = (.ok b, desk')) :
    desk'.store.bucket e.update.device e.update.granularity e.update.bucketStart = .ok (some b) ∧
      (b.total : Int) ≤ e.update.granularity.millis := by
  rcases save_cases e desk with ⟨old, b', ha⟩ | ⟨f, clock, hf⟩
  · rw [ha.answer] at h
    obtain ⟨hb, rfl⟩ := Prod.mk.inj h
    obtain rfl := Except.ok.inj hb
    have hle := ha.total_le
    rw [Bucket.capacity, ha.names.2.1] at hle
    have := e.update.granularity.millis_pos
    exact ⟨ha.stored_after, by omega⟩
  · rw [hf] at h
    exact absurd (Prod.mk.inj h).1 (by simp)

end Rollup

end Footage
