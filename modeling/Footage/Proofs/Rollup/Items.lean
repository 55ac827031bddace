import Footage.Proofs.Merge
import Footage.Proofs.Store.Attributes
import Footage.Proofs.Task
import Footage.Rollup

/-!
# Buckets as items

A bucket within its capacity has an item, of exactly four numbers, and is read back from it. Any
other item can be read as a bucket if it has these four numbers (`ofItem_eq_ok_iff`), and otherwise the
error names the first that it lacks (`ofItem_eq_error_iff`).
-/

namespace Footage.Bucket

/-- The item of a bucket whose densities are stored numbers. -/
def item (b : Bucket) : Item :=
  (((Item.bare b.key).set cloudName (.number b.cloudDensity)).set deviceName (.number b.deviceDensity)
    |>.set createdName (.number b.createdAt)).set updatedName (.number b.lastUpdated)

@[simp] theorem key_item (b : Bucket) : b.item.key = b.key := rfl

theorem storedDensity_eq {d : Nat} (h : (d : Int) ≤ Stamp.greatest) :
    storedDensity d = .ok (.number d) := by
  unfold storedDensity
  rw [if_pos h]

theorem toItem_eq {b : Bucket} (h : b.total ≤ b.capacity) : b.toItem = .ok b.item := by
  have hg : (b.capacity : Int) < Stamp.greatest := by
    unfold capacity
    cases b.granularity <;> decide
  unfold total at h
  unfold toItem
  rw [storedDensity_eq (by omega), storedDensity_eq (by omega)]
  rfl

/-- An item has the attributes of a bucket: the densities are numbers that are not negative, and the
times are numbers. -/
structure ReadFrom (device : String) (g : Granularity) (i : Item) (b : Bucket) : Prop where
  device : b.device = device
  granularity : b.granularity = g
  start : b.start = i.key.sort
  cloud : i.attributes.get? cloudName = some (.number b.cloudDensity)
  inDevice : i.attributes.get? deviceName = some (.number b.deviceDensity)
  created : i.attributes.get? createdName = some (.number b.createdAt)
  updated : i.attributes.get? updatedName = some (.number b.lastUpdated)

theorem ofItem_eq_ok_iff {device : String} {g : Granularity} {i : Item} {b : Bucket} :
    ofItem device g i = .ok b ↔ ReadFrom device g i b := by
  unfold ofItem
  constructor
  · intro h
    obtain ⟨cloud, hc, h⟩ := bind_eq_ok.1 h
    obtain ⟨inDevice, hd, h⟩ := bind_eq_ok.1 h
    obtain ⟨created, hn, h⟩ := bind_eq_ok.1 h
    obtain ⟨updated, hu, h⟩ := bind_eq_ok.1 h
    obtain rfl := Except.ok.inj h
    exact ⟨rfl, rfl, rfl, Item.unsigned_eq_ok_iff.1 hc, Item.unsigned_eq_ok_iff.1 hd,
      Item.number_eq_ok_iff.1 hn, Item.number_eq_ok_iff.1 hu⟩
  · rintro ⟨rfl, rfl, hs, hc, hd, hn, hu⟩
    rw [Item.unsigned_eq_ok_iff.2 hc, Item.unsigned_eq_ok_iff.2 hd, Item.number_eq_ok_iff.2 hn,
      Item.number_eq_ok_iff.2 hu, ← hs]
    rfl

/-- What is asked of the attributes of an item that is read as a bucket, in this order. -/
def asked : List (String × (Attribute → Prop)) :=
  [(cloudName, Item.IsUnsigned), (deviceName, Item.IsUnsigned), (createdName, Item.IsNumber),
    (updatedName, Item.IsNumber)]

theorem ofItem_eq_error_iff {device : String} {g : Granularity} {i : Item} {f : AttributeError} :
    ofItem device g i = .error f ↔ i.FirstUnusable f asked := by
  unfold ofItem asked
  refine Item.bind_eq_error_iff Item.unsigned_eq_error_iff fun _ => ?_
  refine Item.bind_eq_error_iff Item.unsigned_eq_error_iff fun _ => ?_
  refine Item.bind_eq_error_iff Item.number_eq_error_iff fun _ => ?_
  refine Item.bind_eq_error_iff Item.number_eq_error_iff fun _ => ?_
  exact ⟨fun h => absurd h (by simp [pure, Except.pure]), False.elim⟩

theorem readFrom_item (b : Bucket) : ReadFrom b.device b.granularity b.item b := by
  refine ⟨rfl, rfl, rfl, ?_, ?_, ?_, Item.get?_set_self _ _ _⟩ <;> unfold item
  · rw [Item.get?_set_of_ne _ (by decide), Item.get?_set_of_ne _ (by decide),
      Item.get?_set_of_ne _ (by decide), Item.get?_set_self]
  · rw [Item.get?_set_of_ne _ (by decide), Item.get?_set_of_ne _ (by decide), Item.get?_set_self]
  · rw [Item.get?_set_of_ne _ (by decide), Item.get?_set_self]

theorem ofItem_item (b : Bucket) : ofItem b.device b.granularity b.item = .ok b :=
  ofItem_eq_ok_iff.2 b.readFrom_item

theorem parts_of_ofItem {device : String} {g : Granularity} {i : Item} {b : Bucket}
    (h : ofItem device g i = .ok b) : b.device = device ∧ b.granularity = g ∧ b.start = i.key.sort :=
  have hr := ofItem_eq_ok_iff.1 h
  ⟨hr.device, hr.granularity, hr.start⟩

/-- The attributes of the item of a bucket, in the order of their names. -/
theorem entries_item (b : Bucket) :
    b.item.attributes.entries =
      [("cloudDensityMillis", .number b.cloudDensity), ("createdAt", .number b.createdAt),
        ("deviceDensityMillis", .number b.deviceDensity), ("lastUpdated", .number b.lastUpdated)] := by
  have h₁ : compare deviceName cloudName = .gt := by decide
  have h₂ : compare createdName cloudName = .gt := by decide
  have h₃ : compare createdName deviceName = .lt := by decide
  have h₄ : compare updatedName cloudName = .gt := by decide
  have h₅ : compare updatedName createdName = .gt := by decide
  have h₆ : compare updatedName deviceName = .gt := by decide
  simp only [item, Item.set, Item.bare, OrderedMap.insert, OrderedMap.empty, OrderedMap.place, h₁,
    h₂, h₃, h₄, h₅, h₆]
  rfl

end Footage.Bucket
