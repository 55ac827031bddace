import Footage.Archive
import Footage.Proofs.Store.Attributes
import Footage.Proofs.Task

/-!
# Records as items

A record whose duration is a stored number has an item, and is read back from it. Any other item can be
read as a record if it has such attributes (`ofItem_eq_ok_iff`), and otherwise the error names the first
that it lacks (`ofItem_eq_error_iff`).
-/

namespace Footage

namespace Location

theorem name_injective : Function.Injective name := by
  intro l l' h
  cases l <;> cases l' <;> first | rfl | exact absurd h (by decide)

theorem ofName?_name (l : Location) : ofName? l.name = some l := by cases l <;> decide

theorem name_of_ofName? {s : String} {l : Location} (h : ofName? s = some l) : l.name = s := by
  unfold ofName? at h
  have hname := List.find?_some h
  exact eq_of_beq hname

end Location

namespace Fragment

/-- The item of a record whose duration is a stored number. -/
def item (f : Fragment) : Item :=
  (((Item.bare f.key).set durationName (.number f.duration)
    |>.set locationName (.text f.location.name)).set createdName (.number f.createdAt)
    |>.set updatedName (.number f.lastUpdated)).set expiresName (.number f.expires)

@[simp] theorem key_item (f : Fragment) : f.item.key = f.key := rfl

theorem toItem_eq {f : Fragment} (h : (f.duration : Int) ≤ Stamp.greatest) : f.toItem = .ok f.item := by
  unfold toItem
  rw [if_pos h]
  rfl

/-- An item has the attributes of a record: the location is one of the names, the duration is a number
that is not negative, and the times are numbers. -/
structure ReadFrom (device : String) (i : Item) (f : Fragment) : Prop where
  device : f.device = device
  timestamp : f.timestamp = i.key.sort
  location : i.attributes.get? locationName = some (.text f.location.name)
  duration : i.attributes.get? durationName = some (.number f.duration)
  created : i.attributes.get? createdName = some (.number f.createdAt)
  updated : i.attributes.get? updatedName = some (.number f.lastUpdated)
  expires : i.attributes.get? expiresName = some (.number f.expires)

/-- The location that an item names. -/
def locationOf (i : Item) : Except AttributeError Location := do
  match Location.ofName? (← i.text locationName) with
  | some l => return l
  | none => throw (.invalid i.key locationName)

theorem ofItem_eq (device : String) (i : Item) : ofItem device i = (do
    let l ← locationOf i
    let duration ← i.unsigned durationName
    let created ← i.number createdName
    let updated ← i.number updatedName
    let expires ← i.number expiresName
    return ⟨device, i.key.sort, duration, l, created, updated, expires⟩) := by
  unfold ofItem locationOf
  cases i.text locationName with
  | error f => rfl
  | ok s =>
    simp only [bind, Except.bind]
    cases Location.ofName? s <;> rfl

theorem locationOf_eq_ok_iff {i : Item} {l : Location} :
    locationOf i = .ok l ↔ i.attributes.get? locationName = some (.text l.name) := by
  rw [← Item.text_eq_ok_iff]
  unfold locationOf
  constructor
  · intro h
    obtain ⟨s, hs, h⟩ := bind_eq_ok.1 h
    cases hl : Location.ofName? s with
    | none =>
      rw [hl] at h
      exact absurd h (by simp [throw, throwThe, MonadExceptOf.throw])
    | some l' =>
      rw [hl] at h
      obtain rfl := Except.ok.inj h
      rw [hs, Location.name_of_ofName? hl]
  · intro h
    refine bind_eq_ok.2 ⟨_, h, ?_⟩
    rw [Location.ofName?_name]
    rfl

/-- The text of a location. -/
def IsLocation (a : Attribute) : Prop := ∃ l : Location, a = .text l.name

theorem locationOf_eq_error_iff {i : Item} {f : AttributeError} :
    locationOf i = .error f ↔ i.Unusable locationName IsLocation f := by
  unfold locationOf Item.text Item.value Item.Unusable
  cases i.attributes.get? locationName with
  | none => simp [bind, Except.bind, eq_comm]
  | some a =>
    cases a with
    | number n => simp [bind, Except.bind, throw, throwThe, MonadExceptOf.throw, IsLocation, eq_comm]
    | text s =>
      cases hs : Location.ofName? s with
      | none =>
        have hno : ¬ IsLocation (.text s) := by
          rintro ⟨l, ⟨⟩⟩
          exact absurd (hs.symm.trans (Location.ofName?_name l)) (by simp)
        simp [bind, Except.bind, pure, Except.pure, throw, throwThe, MonadExceptOf.throw, hs, hno, eq_comm]
      | some l =>
        have hl : IsLocation (.text s) := ⟨l, by rw [Location.name_of_ofName? hs]⟩
        simp [bind, Except.bind, pure, Except.pure, hs, hl]

theorem ofItem_eq_ok_iff {device : String} {i : Item} {f : Fragment} :
    ofItem device i = .ok f ↔ ReadFrom device i f := by
  rw [ofItem_eq]
  constructor
  · intro h
    obtain ⟨l, hl, h⟩ := bind_eq_ok.1 h
    obtain ⟨duration, hd, h⟩ := bind_eq_ok.1 h
    obtain ⟨created, hn, h⟩ := bind_eq_ok.1 h
    obtain ⟨updated, hu, h⟩ := bind_eq_ok.1 h
    obtain ⟨expires, he, h⟩ := bind_eq_ok.1 h
    obtain rfl := Except.ok.inj h
    exact ⟨rfl, rfl, locationOf_eq_ok_iff.1 hl, Item.unsigned_eq_ok_iff.1 hd, Item.number_eq_ok_iff.1 hn,
      Item.number_eq_ok_iff.1 hu, Item.number_eq_ok_iff.1 he⟩
  · rintro ⟨rfl, ht, hl, hd, hn, hu, he⟩
    rw [locationOf_eq_ok_iff.2 hl, Item.unsigned_eq_ok_iff.2 hd, Item.number_eq_ok_iff.2 hn,
      Item.number_eq_ok_iff.2 hu, Item.number_eq_ok_iff.2 he, ← ht]
    rfl

/-- What is asked of the attributes of an item that is read as a record, in this order. -/
def asked : List (String × (Attribute → Prop)) :=
  [(locationName, IsLocation), (durationName, Item.IsUnsigned), (createdName, Item.IsNumber),
    (updatedName, Item.IsNumber), (expiresName, Item.IsNumber)]

theorem ofItem_eq_error_iff {device : String} {i : Item} {f : AttributeError} :
    ofItem device i = .error f ↔ i.FirstUnusable f asked := by
  rw [ofItem_eq]
  unfold asked
  refine Item.bind_eq_error_iff locationOf_eq_error_iff fun _ => ?_
  refine Item.bind_eq_error_iff Item.unsigned_eq_error_iff fun _ => ?_
  refine Item.bind_eq_error_iff Item.number_eq_error_iff fun _ => ?_
  refine Item.bind_eq_error_iff Item.number_eq_error_iff fun _ => ?_
  refine Item.bind_eq_error_iff Item.number_eq_error_iff fun _ => ?_
  exact ⟨fun h => absurd h (by simp [pure, Except.pure]), False.elim⟩

theorem readFrom_item (f : Fragment) : ReadFrom f.device f.item f := by
  refine ⟨rfl, rfl, ?_, ?_, ?_, ?_, Item.get?_set_self _ _ _⟩ <;> unfold item
  · rw [Item.get?_set_of_ne _ (by decide), Item.get?_set_of_ne _ (by decide),
      Item.get?_set_of_ne _ (by decide), Item.get?_set_self]
  · rw [Item.get?_set_of_ne _ (by decide), Item.get?_set_of_ne _ (by decide),
      Item.get?_set_of_ne _ (by decide), Item.get?_set_of_ne _ (by decide), Item.get?_set_self]
  · rw [Item.get?_set_of_ne _ (by decide), Item.get?_set_of_ne _ (by decide), Item.get?_set_self]
  · rw [Item.get?_set_of_ne _ (by decide), Item.get?_set_self]

theorem ofItem_item (f : Fragment) : ofItem f.device f.item = .ok f := ofItem_eq_ok_iff.2 f.readFrom_item

/-- What a read record says of its item: where it is stored, and its attribute for the location. -/
theorem parts_of_ofItem {device : String} {i : Item} {f : Fragment} (h : ofItem device i = .ok f) :
    f.device = device ∧ f.timestamp = i.key.sort ∧
      i.attributes.get? locationName = some (.text f.location.name) :=
  have hr := ofItem_eq_ok_iff.1 h
  ⟨hr.device, hr.timestamp, hr.location⟩

end Fragment

end Footage
