import Footage.Proofs.Store.OrderedMap
import Footage.Proofs.Text.Decimal
import Footage.Store.Dynamo.Wire

/-!
# What a map is read as

Whatever map comes back for an item, its reading is one that `Decodes` admits: the item with exactly one
attribute for each entry besides those of the key, or an error for an entry that does not fit.

1. A value is read as the attribute that it says (`Wire.toAttribute?_eq_some_iff`).
2. The key is read exactly if both of its entries fit (`toKey_eq_ok_iff`); otherwise it is told which does not
   (`keyFault_of_toKey`).
3. The entries are gone through one by one, in an order of which nothing is known. They all become attributes,
   or the first one that does not fit ends it (`decodes_addAttributes`).

Where an item may come out nothing else may (`Decodes.eq_ok`), so the order makes a difference only to which of
several entries is blamed.
-/

namespace Footage.Dynamo

/-- The name is not that of a part of a key. -/
def IsFree (name : String) : Prop := name ≠ partitionName ∧ name ≠ sortName

instance : DecidablePred IsFree := fun name =>
  inferInstanceAs (Decidable (name ≠ partitionName ∧ name ≠ sortName))

/-! ## Values -/

namespace Wire

variable {w : Wire} {a a' : Attribute}

/-- The value says the attribute: a text, or a stored number that its digits denote. -/
inductive Says : Wire → Attribute → Prop
  | text (s : String) : Says (.text s) (.text s)
  | number {digits : String} {n : Int} (denotes : Decimal.Denotes digits.toList n) (fits : Stamp.Fits n) :
    Says (.number digits) (.number n)

theorem says_number_iff {digits : String} {n : Int} :
    Says (.number digits) (.number n) ↔ Decimal.read digits.toList = .ok n := by
  rw [Decimal.read_eq_ok_iff]
  exact ⟨fun | .number denotes fits => ⟨denotes, fits⟩, fun h => .number h.1 h.2⟩

theorem toAttribute?_eq_some_iff : w.toAttribute? = some a ↔ w.Says a := by
  cases w with
  | text s => exact ⟨fun h => Option.some.inj h ▸ .text s, fun | .text _ => rfl⟩
  | number digits =>
    show (Decimal.read digits.toList).toOption.map Attribute.number = some a ↔ _
    constructor
    · intro h
      cases hr : Decimal.read digits.toList with
      | error fault =>
        rw [hr] at h
        exact absurd h (by simp [Except.toOption])
      | ok n =>
        rw [hr] at h
        exact Option.some.inj h ▸ says_number_iff.2 hr
    · intro h
      cases h with
      | number denotes fits =>
        rw [says_number_iff.1 (.number denotes fits)]
        rfl
  | other => exact ⟨fun h => absurd h (by simp [toAttribute?]), nofun⟩

theorem Says.unique (h : w.Says a) (h' : w.Says a') : a = a' :=
  Option.some.inj ((toAttribute?_eq_some_iff.2 h).symm.trans (toAttribute?_eq_some_iff.2 h'))

theorem eq_of_rel_says {x : Option Wire} {y z : Option Attribute} (hy : Option.Rel Says x y)
    (hz : Option.Rel Says x z) : y = z := by
  cases hy with
  | none =>
    cases hz
    rfl
  | some hy =>
    cases hz with
    | some hz => exact congrArg some (hy.unique hz)

theorem toAttribute?_eq_none_iff : w.toAttribute? = none ↔ ∀ a, ¬ w.Says a := by
  simp only [← toAttribute?_eq_some_iff, Option.eq_none_iff_forall_ne_some, ne_eq]

end Wire

variable {m : WireItem} {k k' : Key} {i : Item} {r : Except StoreError Item} {es : List (String × Wire)}

/-! ## Keys -/

/-- The two entries of the key say this one. -/
structure HasKey (m : WireItem) (k : Key) : Prop where
  partition : m.get? partitionName = some (.text k.partition)
  sort : ∃ w, m.get? sortName = some w ∧ w.Says (.number k.sort)

/-- What is wrong with the entries of the key: the partition is missing or no text, or else the sort number is
missing or of another type, or its text is no stored number. -/
inductive KeyFault (m : WireItem) : RemoteFault → Prop
  | noPartition (h : ∀ p, m.get? partitionName ≠ some (.text p)) : KeyFault m .noPartition
  | noSort {p : String} (hp : m.get? partitionName = some (.text p))
      (h : ∀ digits, m.get? sortName ≠ some (.number digits)) : KeyFault m (.noSort p)
  | badSort {p digits : String} {fault : Decimal.Fault} (hp : m.get? partitionName = some (.text p))
      (hs : m.get? sortName = some (.number digits)) (h : ∀ a, ¬ (Wire.number digits).Says a)
      (hfault : Decimal.read digits.toList = .error fault) : KeyFault m (.badSort digits fault)

theorem toKey_eq_ok_iff : toKey m = .ok k ↔ HasKey m k := by
  constructor
  · intro h
    unfold toKey at h
    split at h
    · next p hp =>
      split at h
      · next digits hs =>
        split at h
        · next sort hr =>
          obtain rfl := Except.ok.inj h
          exact ⟨hp, _, hs, Wire.says_number_iff.2 hr⟩
        · exact absurd h (by simp)
      · exact absurd h (by simp)
    · exact absurd h (by simp)
  · rintro ⟨hp, w, hs, hw⟩
    cases hw with
    | number denotes fits =>
      have hr := Decimal.read_eq_ok_iff.2 ⟨denotes, fits⟩
      unfold toKey
      simp only [hp, hs, hr]

theorem keyFault_of_toKey {fault : RemoteFault} (h : toKey m = .error fault) : KeyFault m fault := by
  unfold toKey at h
  split at h
  · next p hp =>
    split at h
    · next digits hs =>
      split at h
      · exact absurd h (by simp)
      · next hr =>
        obtain rfl := Except.error.inj h
        refine .badSort hp hs (fun a ha => ?_) hr
        cases ha with
        | number denotes fits =>
          rw [Decimal.read_eq_ok_iff.2 ⟨denotes, fits⟩] at hr
          exact absurd hr (by simp)
    · next hs =>
      obtain rfl := Except.error.inj h
      exact .noSort hp hs
  · next hp =>
    obtain rfl := Except.error.inj h
    exact .noPartition hp

theorem HasKey.unique (h : HasKey m k) (h' : HasKey m k') : k = k' :=
  Except.ok.inj ((toKey_eq_ok_iff.2 h).symm.trans (toKey_eq_ok_iff.2 h'))

theorem HasKey.not_keyFault (h : HasKey m k) {fault : RemoteFault} : ¬ KeyFault m fault := by
  obtain ⟨hp, w, hs, hw⟩ := h
  intro hfault
  cases hfault with
  | noPartition h => exact h _ hp
  | noSort _ h =>
    cases hw with
    | number => exact h _ hs
  | badSort _ hs' h =>
    obtain rfl := Option.some.inj (hs.symm.trans hs')
    exact h _ hw

/-! ## Items -/

/-- What a map may be read as: an item with one attribute for each entry besides those of the key, or an error
for the key or for an entry that gives none. -/
inductive Decodes (m : WireItem) : Except StoreError Item → Prop
  | item {i : Item} (key : HasKey m i.key)
      (attributes : ∀ name, if IsFree name then Option.Rel Wire.Says (m.get? name) (i.attributes.get? name)
        else i.attributes.get? name = none) : Decodes m (.ok i)
  | badKey {fault : RemoteFault} (h : KeyFault m fault) : Decodes m (.error (.remote fault))
  | badAttribute {k : Key} {name : String} {w : Wire} (key : HasKey m k) (free : IsFree name)
      (entry : m.get? name = some w) (h : ∀ a, ¬ w.Says a) :
      Decodes m (.error (.item (.invalid k name)))

section Step

variable {name : String} {w : Wire} {a : Attribute} (j : Item) (es)

theorem addAttributes_of_not_free (h : ¬ IsFree name) :
    addAttributes j ((name, w) :: es) = addAttributes j es :=
  if_pos (Decidable.not_not.1 fun hn => h (not_or.1 hn))

theorem addAttributes_of_some (h : IsFree name) (ha : w.toAttribute? = some a) :
    addAttributes j ((name, w) :: es) = addAttributes (j.set name a) es := by
  rw [addAttributes, if_neg (not_or.2 h), ha]

theorem addAttributes_of_none (h : IsFree name) (hw : w.toAttribute? = none) :
    addAttributes j ((name, w) :: es) = .error (.item (.invalid j.key name)) := by
  rw [addAttributes, if_neg (not_or.2 h), hw]

end Step

/-- Entries that are all readable are added under their names, those of the key apart. -/
theorem addAttributes_eq_ok (hes : (es.map (·.1)).Nodup)
    (h : ∀ e ∈ es, IsFree e.1 → (e.2.toAttribute?).isSome) (j : Item) :
    ∃ i, addAttributes j es = .ok i ∧ i.key = j.key ∧ ∀ name, i.attributes.get? name =
      if IsFree name then ((OrderedMap.lookup name es).bind Wire.toAttribute?).or (j.attributes.get? name)
      else j.attributes.get? name := by
  induction es generalizing j with
  | nil => exact ⟨j, rfl, rfl, fun name => by simp [OrderedMap.lookup]⟩
  | cons d es ih =>
    obtain ⟨dname, w⟩ := d
    obtain ⟨hnew, hes⟩ := List.nodup_cons.1 hes
    have hnone := OrderedMap.lookup_eq_none_of_notMem hnew
    have ih := ih hes fun e he => h e (List.mem_cons_of_mem _ he)
    by_cases hfree : IsFree dname
    · obtain ⟨a, ha⟩ := Option.isSome_iff_exists.1 (h _ List.mem_cons_self hfree)
      obtain ⟨i, hi, hkey, hget⟩ := ih (j.set dname a)
      refine ⟨i, (addAttributes_of_some es j hfree ha).trans hi, hkey, fun name => ?_⟩
      rw [hget]
      by_cases hn : name = dname
      · subst hn
        rw [if_pos hfree, if_pos hfree, hnone]
        simp [OrderedMap.lookup, Item.set, ha]
      · simp only [Item.set, OrderedMap.lookup_cons_of_ne hn, OrderedMap.get?_insert_of_ne _ hn]
    · obtain ⟨i, hi, hkey, hget⟩ := ih j
      refine ⟨i, (addAttributes_of_not_free es j hfree).trans hi, hkey, fun name => ?_⟩
      rw [hget]
      by_cases hn : IsFree name
      · have hne : name ≠ dname := fun he => hfree (he ▸ hn)
        rw [if_pos hn, if_pos hn, OrderedMap.lookup_cons_of_ne hne]
      · rw [if_neg hn, if_neg hn]

/-- An entry that is not readable ends it, or one before it. -/
theorem exists_addAttributes_eq_error (h : ∃ e ∈ es, IsFree e.1 ∧ e.2.toAttribute? = none) (j : Item) :
    ∃ e ∈ es, IsFree e.1 ∧ e.2.toAttribute? = none ∧
      addAttributes j es = .error (.item (.invalid j.key e.1)) := by
  induction es generalizing j with
  | nil => exact absurd h (by simp)
  | cons d es ih =>
    obtain ⟨dname, w⟩ := d
    by_cases hd : IsFree dname ∧ w.toAttribute? = none
    · exact ⟨_, List.mem_cons_self, hd.1, hd.2, addAttributes_of_none es j hd.1 hd.2⟩
    · have hrest : ∃ e ∈ es, IsFree e.1 ∧ e.2.toAttribute? = none := by
        obtain ⟨e, he, hbad⟩ := h
        rcases List.mem_cons.1 he with rfl | he
        · exact absurd hbad hd
        · exact ⟨e, he, hbad⟩
      -- what is added for the first entry is not part of the key, by which the error names the item
      obtain ⟨j', hkey, hstep⟩ : ∃ j' : Item, j'.key = j.key ∧
          addAttributes j ((dname, w) :: es) = addAttributes j' es := by
        by_cases hfree : IsFree dname
        · obtain ⟨a, ha⟩ := Option.ne_none_iff_exists'.1 fun hw => hd ⟨hfree, hw⟩
          exact ⟨j.set dname a, rfl, addAttributes_of_some es j hfree ha⟩
        · exact ⟨j, rfl, addAttributes_of_not_free es j hfree⟩
      obtain ⟨e, he, hfree, hnone, heq⟩ := ih hrest j'
      exact ⟨e, List.mem_cons_of_mem _ he, hfree, hnone, hstep.trans (hkey ▸ heq)⟩

/-- Gone through in any order, the entries of a map with a key are read as the map admits. -/
theorem decodes_addAttributes (hk : HasKey m k) (hes : es.Perm m.entries) :
    Decodes m (addAttributes (.bare k) es) := by
  have hnodup : (m.entries.map (·.1)).Nodup := OrderedMap.nodup_keys m.ascending
  by_cases hbad : ∃ e ∈ es, IsFree e.1 ∧ e.2.toAttribute? = none
  · obtain ⟨⟨name, w⟩, he, hfree, hnone, heq⟩ := exists_addAttributes_eq_error hbad (.bare k)
    rw [heq]
    exact .badAttribute hk hfree (OrderedMap.mem_entries.1 (hes.mem_iff.1 he))
      (Wire.toAttribute?_eq_none_iff.1 hnone)
  · have hread : ∀ e ∈ es, IsFree e.1 → (e.2.toAttribute?).isSome := fun e he hfree =>
      Option.isSome_iff_ne_none.2 fun hnone => hbad ⟨e, he, hfree, hnone⟩
    obtain ⟨i, hi, rfl, hget⟩ :=
      addAttributes_eq_ok ((hes.map _).nodup_iff.2 hnodup) hread (.bare k)
    rw [hi]
    refine .item hk fun name => ?_
    rw [hget]
    by_cases hfree : IsFree name
    · rw [if_pos hfree, if_pos hfree, OrderedMap.lookup_perm hes hnodup]
      show Option.Rel Wire.Says (m.get? name) (((m.get? name).bind Wire.toAttribute?).or none)
      rw [Option.or_none]
      cases hw : m.get? name with
      | none => exact .none
      | some w =>
        have hmem : (name, w) ∈ es := hes.mem_iff.2 (OrderedMap.mem_entries.2 hw)
        obtain ⟨a, ha⟩ := Option.isSome_iff_exists.1 (hread _ hmem hfree)
        rw [Option.bind_some, ha]
        exact .some (Wire.toAttribute?_eq_some_iff.1 ha)
    · rw [if_neg hfree, if_neg hfree]
      rfl

theorem decodes_toItem (m : WireItem) : Decodes m (toItem m) := by
  unfold toItem
  split
  · next k hk => exact decodes_addAttributes (toKey_eq_ok_iff.1 hk) (.refl _)
  · next fault hfault => exact .badKey (keyFault_of_toKey hfault)

/-- A map that may be read as an item is read as that item only. -/
theorem Decodes.eq_ok (h : Decodes m (.ok i)) (hr : Decodes m r) : r = .ok i := by
  obtain ⟨hkey, hget⟩ := h
  cases hr with
  | @item j hkey' hget' =>
    have hattributes : j.attributes = i.attributes := OrderedMap.ext_get? fun name => by
      have hi := hget name
      have hj := hget' name
      by_cases hfree : IsFree name
      · rw [if_pos hfree] at hi hj
        exact Wire.eq_of_rel_says hj hi
      · rw [if_neg hfree] at hi hj
        rw [hi, hj]
    have hkeys := hkey'.unique hkey
    cases i
    cases j
    simp_all
  | badKey hfault => exact absurd hfault hkey.not_keyFault
  | @badAttribute k name w _ hfree hentry hno =>
    have hi := hget name
    rw [if_pos hfree, hentry] at hi
    generalize i.attributes.get? name = found at hi
    cases hi with
    | some hsays => exact absurd hsays (hno _)

end Footage.Dynamo
