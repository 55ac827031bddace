import Footage.Proofs.Json.Fields
import Footage.Proofs.Store.Dynamo.Decoding

/-!
# Items come back as they were sent

The two parts of a key and the attributes of an item travel in one map. That of an item whose attributes do
not take the names of the key may be read as this item (`Sendable.decodes_ofItem`), and so it is
(`toItem_ofItem`). A key comes back too (`toKey_ofKey`). The JSON form of a map is read as that map
(`WireItem.ofValue?_toValue`).
-/

namespace Footage

/-- A number that a store can keep, or a text. -/
def Attribute.Fits : Attribute → Prop
  | .number n => Stamp.Fits n
  | .text _ => True

instance : DecidablePred Attribute.Fits := fun
  | .number n => inferInstanceAs (Decidable (Stamp.Fits n))
  | .text _ => .isTrue trivial

namespace Dynamo

open Json

/-- The item can be sent without loss. -/
structure Sendable (i : Item) : Prop where
  sort : Stamp.Fits i.key.sort
  attributes : ∀ name a, i.attributes.get? name = some a → IsFree name ∧ a.Fits

instance : DecidablePred Sendable := fun i =>
  decidable_of_iff (Stamp.Fits i.key.sort ∧ ∀ e ∈ i.attributes.entries, IsFree e.1 ∧ e.2.Fits)
    ⟨fun h => ⟨h.1, fun name a ha => h.2 (name, a) (OrderedMap.mem_entries.2 ha)⟩,
      fun h => ⟨h.1, fun e he => h.2 e.1 e.2 (OrderedMap.mem_entries.1 he)⟩⟩

variable {i : Item} {k : Key} {m : WireItem} {name : String}

/-! ## The map of an item -/

theorem Wire.says_ofAttribute {a : Attribute} (h : a.Fits) : (Wire.ofAttribute a).Says a := by
  cases a with
  | number n =>
    refine .number ?_ h
    rw [String.toList_ofList]
    exact Decimal.denotes_ofInt n
  | text s => exact .text s

theorem Wire.toAttribute?_ofAttribute {a : Attribute} (h : a.Fits) :
    (Wire.ofAttribute a).toAttribute? = some a :=
  Wire.toAttribute?_eq_some_iff.2 (Wire.says_ofAttribute h)

theorem get?_ofKey_partition (k : Key) : (ofKey k).get? partitionName = some (.text k.partition) := by
  unfold ofKey
  rw [OrderedMap.get?_insert_of_ne _ (by decide), OrderedMap.get?_insert_self]

theorem get?_ofKey_sort (k : Key) : (ofKey k).get? sortName = some (.ofAttribute (.number k.sort)) :=
  OrderedMap.get?_insert_self _ _ _

theorem get?_ofKey_of_free (k : Key) (h : IsFree name) : (ofKey k).get? name = none := by
  unfold ofKey
  rw [OrderedMap.get?_insert_of_ne _ h.2, OrderedMap.get?_insert_of_ne _ h.1, OrderedMap.get?_empty]

/-- What travels under a name: the attribute, or else a part of the key. -/
theorem get?_ofItem (i : Item) (name : String) :
    (ofItem i).get? name = ((i.attributes.get? name).map .ofAttribute).or ((ofKey i.key).get? name) :=
  OrderedMap.get?_foldl_insert Wire.ofAttribute i.attributes.ascending (ofKey i.key) name

theorem Sendable.get?_eq_none (h : Sendable i) (hname : ¬ IsFree name) : i.attributes.get? name = none := by
  rw [Option.eq_none_iff_forall_ne_some]
  exact fun a ha => hname (h.attributes name a ha).1

theorem get?_ofItem_of_free (hname : IsFree name) :
    (ofItem i).get? name = (i.attributes.get? name).map .ofAttribute := by
  rw [get?_ofItem, get?_ofKey_of_free i.key hname, Option.or_none]

theorem Sendable.get?_ofItem_of_not_free (h : Sendable i) (hname : ¬ IsFree name) :
    (ofItem i).get? name = (ofKey i.key).get? name := by
  rw [get?_ofItem, h.get?_eq_none hname]
  rfl

theorem Sendable.get?_ofItem_partition (h : Sendable i) :
    (ofItem i).get? partitionName = some (.text i.key.partition) := by
  rw [h.get?_ofItem_of_not_free (by decide), get?_ofKey_partition]

theorem Sendable.get?_ofItem_sort (h : Sendable i) :
    (ofItem i).get? sortName = some (.ofAttribute (.number i.key.sort)) := by
  rw [h.get?_ofItem_of_not_free (by decide), get?_ofKey_sort]

/-! ## The way back -/

theorem hasKey_ofKey (h : Stamp.Fits k.sort) : HasKey (ofKey k) k :=
  ⟨get?_ofKey_partition k, _, get?_ofKey_sort k, Wire.says_ofAttribute (a := .number k.sort) h⟩

theorem toKey_ofKey (h : Stamp.Fits k.sort) : toKey (ofKey k) = .ok k := toKey_eq_ok_iff.2 (hasKey_ofKey h)

theorem Sendable.hasKey_ofItem (h : Sendable i) : HasKey (ofItem i) i.key :=
  ⟨h.get?_ofItem_partition, _, h.get?_ofItem_sort, Wire.says_ofAttribute (a := .number i.key.sort) h.sort⟩

theorem Sendable.decodes_ofItem (h : Sendable i) : Decodes (ofItem i) (.ok i) := by
  refine .item h.hasKey_ofItem fun name => ?_
  by_cases hfree : IsFree name
  · rw [if_pos hfree, get?_ofItem_of_free hfree]
    cases ha : i.attributes.get? name with
    | none => exact .none
    | some a => exact .some (Wire.says_ofAttribute (h.attributes name a ha).2)
  · rw [if_neg hfree, h.get?_eq_none hfree]

/-- An item comes back as it was sent. -/
theorem Sendable.toItem_ofItem (h : Sendable i) : toItem (ofItem i) = .ok i :=
  h.decodes_ofItem.eq_ok (decodes_toItem _)

/-! ## The JSON form -/

theorem Wire.ofValue?_toValue (w : Wire) : Wire.ofValue? w.toValue = some w := by cases w <;> rfl

theorem WireItem.ofValue?_toValue (m : WireItem) : WireItem.ofValue? (WireItem.toValue m) = some m := by
  let members := m.entries.map fun e => (e.1, e.2.toValue)
  have hnames : (members.map fun e => (some e.1, e.2)).mapM
      (fun e : Option String × Value => e.1.map (·, e.2)) = some members :=
    mapM_map_eq_pure fun _ _ => rfl
  have hkept : ∀ P : String × Value → Bool, (∀ name (w : Wire), P (name, w.toValue) = true) →
      members.filter P = members := fun P hP => List.filter_eq_self.2 fun e he => by
    obtain ⟨⟨name, w⟩, -, rfl⟩ := List.mem_map.1 he
    exact hP name w
  have hvalues : members.mapM (fun e => (Wire.ofValue? e.2).map (e.1, ·)) = some m.entries :=
    mapM_map_eq_pure fun e _ => by
      rw [Wire.ofValue?_toValue]
      rfl
  refine Option.bind_eq_some_iff.2 ⟨members, hnames, Option.bind_eq_some_iff.2 ⟨m.entries, ?_, ?_⟩⟩
  · rw [hkept, hvalues]
    intro name w
    cases w <;> rfl
  · exact congrArg some (OrderedMap.ofList_entries m)

end Dynamo

end Footage
