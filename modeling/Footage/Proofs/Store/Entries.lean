import Footage.Proofs.Task
import Footage.Store.Memory

/-!
# What a store holds under a key

The `entry` under a key is the item there, read by some function. A stored item changes the entry
under its own key and no other. The entries of a partition are what can be read from its items
(`mem_decoded_partition`), in their order. A load answers the entry, unless the store is out of service
or the item cannot be read.
-/

namespace Footage.Memory

variable {α : Type} {ofItem : Item → Except AttributeError α}

/-- The item under a key, if there is one, as `ofItem` reads it. -/
def entry (m : Memory) (ofItem : Item → Except AttributeError α) (k : Key) :
    Except AttributeError (Option α) :=
  match m.find? k with
  | some item => (ofItem item).map some
  | none => .ok none

theorem find?_congr {m m' : Memory} (h : m'.rows = m.rows) (k : Key) : m'.find? k = m.find? k := by
  unfold find?
  rw [h]

theorem key_of_find? {m : Memory} {k : Key} {i : Item} (h : m.find? k = some i) : i.key = k := by
  unfold find? at h
  obtain ⟨a, -, rfl⟩ := Option.map_eq_some_iff.1 h
  rfl

theorem items_congr {m m' : Memory} (h : m'.rows = m.rows) : m'.items = m.items := by
  unfold items
  rw [h]

theorem entry_congr {m m' : Memory} (h : m'.rows = m.rows) (k : Key) :
    m'.entry ofItem k = m.entry ofItem k := by
  unfold entry
  rw [find?_congr h]

theorem entry_of_find?_eq_none {m : Memory} {k : Key} (h : m.find? k = none) :
    m.entry ofItem k = .ok none := by
  unfold entry
  rw [h]

theorem entry_of_find? {m : Memory} {k : Key} {i : Item} {a : α} (hi : m.find? k = some i)
    (h : ofItem i = .ok a) : m.entry ofItem k = .ok (some a) := by
  unfold entry
  rw [hi]
  exact congrArg (Except.map some) h

theorem entry_store_self (m : Memory) {i : Item} {a : α} (h : ofItem i = .ok a) :
    (m.store i).entry ofItem i.key = .ok (some a) :=
  entry_of_find? (m.find?_store_self i) h

theorem entry_store_of_ne (m : Memory) (i : Item) {k : Key} (h : k ≠ i.key) :
    (m.store i).entry ofItem k = m.entry ofItem k := by
  unfold entry
  rw [find?_store_of_ne m i h]

/-- An entry can be read if there is no item, or one that `ofItem` reads. -/
theorem entry_eq_ok_iff {m : Memory} {k : Key} {old : Option α} :
    m.entry ofItem k = .ok old ↔ Option.Rel (fun i a => ofItem i = .ok a) (m.find? k) old := by
  unfold entry
  cases m.find? k with
  | none => cases old <;> simp
  | some i => cases old <;> cases h : ofItem i <;> simp [h, Except.map]

theorem entry_eq_error_iff {m : Memory} {k : Key} {f : AttributeError} :
    m.entry ofItem k = .error f ↔ ∃ i, m.find? k = some i ∧ ofItem i = .error f := by
  unfold entry
  cases m.find? k with
  | none => simp
  | some i => cases h : ofItem i <;> simp [h, Except.map]

theorem find?_of_entry_eq_none {m : Memory} {k : Key} (h : m.entry ofItem k = .ok none) :
    m.find? k = none := by
  cases hi : m.find? k with
  | none => rfl
  | some i =>
    rw [entry_eq_ok_iff, hi] at h
    cases h

theorem find?_of_entry_eq_some {m : Memory} {k : Key} {a : α} (h : m.entry ofItem k = .ok (some a)) :
    ∃ i, m.find? k = some i ∧ ofItem i = .ok a := by
  cases hi : m.find? k with
  | none =>
    rw [entry_eq_ok_iff, hi] at h
    cases h
  | some i =>
    rw [entry_eq_ok_iff, hi] at h
    obtain ⟨ha⟩ := h
    exact ⟨i, rfl, ha⟩

theorem isSome_find? {m : Memory} {k : Key} {old : Option α} (h : m.entry ofItem k = .ok old) :
    (m.find? k).isSome = old.isSome := by
  cases old with
  | none => rw [find?_of_entry_eq_none h]; rfl
  | some a =>
    obtain ⟨i, hi, -⟩ := find?_of_entry_eq_some h
    rw [hi]
    rfl

/-! ## Reading many items -/

/-- What can be read from items. -/
def decoded (ofItem : Item → Except AttributeError α) (is : List Item) : List α :=
  is.filterMap fun i => (ofItem i).toOption

/-- Reading readable items one after the other gives what can be read from them. -/
theorem mapM_eq_decoded {is : List Item} (h : ∀ i ∈ is, ∃ a, ofItem i = .ok a) :
    is.mapM ofItem = .ok (decoded ofItem is) := by
  induction is with
  | nil => rfl
  | cons i is ih =>
    obtain ⟨a, ha⟩ := h i List.mem_cons_self
    rw [List.mapM_cons, ha, ih fun j hj => h j (List.mem_cons_of_mem _ hj), decoded, decoded,
      List.filterMap_cons, ha]
    rfl

theorem mem_decoded {is : List Item} {a : α} : a ∈ decoded ofItem is ↔ ∃ i ∈ is, ofItem i = .ok a := by
  unfold decoded
  rw [List.mem_filterMap]
  constructor
  · rintro ⟨i, hi, ha⟩
    exact ⟨i, hi, eq_ok_of_toOption ha⟩
  · rintro ⟨i, hi, ha⟩
    refine ⟨i, hi, ?_⟩
    rw [ha]
    rfl

/-- What is read from ascending items comes in ascending order. -/
theorem pairwise_decoded {is : List Item} {time : α → Int}
    (ht : ∀ i a, ofItem i = .ok a → time a = i.key.sort)
    (h : is.Pairwise fun i j => i.key.sort < j.key.sort) :
    (decoded ofItem is).Pairwise fun a b => time a < time b := by
  refine List.pairwise_filterMap.2 (h.imp fun {i j} hij a ha b hb => ?_)
  rw [ht i a (eq_ok_of_toOption ha), ht j b (eq_ok_of_toOption hb)]
  exact hij

/-- An entry under a key of a partition is read from an item of the partition, and the other way round. -/
theorem mem_decoded_partition {m : Memory} {p : String} {time : α → Int}
    (ht : ∀ i a, ofItem i = .ok a → time a = i.key.sort) {a : α} :
    a ∈ decoded ofItem (m.partition p) ↔ m.entry ofItem ⟨p, time a⟩ = .ok (some a) := by
  rw [mem_decoded]
  constructor
  · rintro ⟨i, hi, ha⟩
    obtain ⟨him, hp⟩ := List.mem_filter.1 hi
    have hk : (⟨p, time a⟩ : Key) = i.key := by
      rw [ht i a ha, ← of_decide_eq_true hp]
    exact entry_of_find? (hk ▸ mem_items.1 him) ha
  · intro h
    obtain ⟨i, hi, ha⟩ := find?_of_entry_eq_some h
    have hk := key_of_find? hi
    exact ⟨i, List.mem_filter.2 ⟨mem_items.2 (by rw [hk, hi]), decide_eq_true (by rw [hk])⟩, ha⟩

/-! ## A load -/

/-- A load of the entry under a key. -/
theorem load_entry (ofItem : Item → Except AttributeError α) (k : Key) (desk : Desk Memory) :
    (do match ← Desk.onStore (backend.get k) with
        | some item => return some (← Desk.check .unreadable (ofItem item))
        | none => return none : DeskTask Memory (Option α)) desk =
      if desk.store.faults.get then (.error (.store (.outage (.get k))), desk)
      else ((desk.store.entry ofItem k).mapError .unreadable, desk) := by
  rw [Task.bind_apply]
  simp only [Desk.onStore, backend]
  unfold entry
  by_cases hf : desk.store.faults.get
  · simp [hf]
  · simp only [hf, if_false, Bool.false_eq_true]
    cases desk.store.find? k with
    | none => rfl
    | some item =>
      simp only [Task.bind_apply, Desk.check]
      cases ofItem item <;> rfl

end Footage.Memory
