import Footage.Store.OrderedMap

/-!
# Ordered maps made from others

A map is the one with its entries as bindings (`ofList_entries`). What they bind a key to is what it is found
with among pairs (`list_lookup_eq`), and does not depend on their order (`lookup_perm`). Entries that are added one by one count before those that were there
(`get?_foldl_insert`), and values can be replaced under their keys (`mapWithKey`).
-/

namespace Footage.OrderedMap

open Std

universe u v w

variable {κ : Type u} {ν : Type v} {μ : Type w} [Ord κ] [LawfulEqOrd κ]

/-! ## Entries in any order -/

/-- It makes no difference whether keys are compared or tested for equality. -/
theorem list_lookup_eq [BEq κ] [LawfulBEq κ] (k : κ) (es : List (κ × ν)) : es.lookup k = lookup k es := by
  induction es with
  | nil => rfl
  | cons d es ih =>
    obtain ⟨j, v⟩ := d
    by_cases hk : k = j
    · subst hk
      rw [List.lookup_cons_self]
      exact (if_pos ReflCmp.compare_self).symm
    · rw [List.lookup_cons, beq_false_of_ne hk, lookup_cons_of_ne hk]
      exact ih

theorem lookup_eq_none_of_notMem {k : κ} {es : List (κ × ν)} (h : k ∉ es.map (·.1)) : lookup k es = none := by
  induction es with
  | nil => rfl
  | cons d es ih =>
    rw [List.map_cons, List.mem_cons, not_or] at h
    exact (lookup_cons_of_ne h.1 d.2 es).trans (ih h.2)

theorem lookup_perm {es es' : List (κ × ν)} (hp : es.Perm es') (h : (es'.map (·.1)).Nodup) (k : κ) :
    lookup k es = lookup k es' := by
  refine Option.ext fun v => ?_
  rw [lookup_eq_some_iff_mem ((hp.map _).nodup_iff.2 h), lookup_eq_some_iff_mem h, hp.mem_iff]

/-! ## Entries added to a map -/

variable [TransOrd κ]

/-- The values of ascending entries count before those of the map that they are added to. -/
theorem get?_foldl_insert (f : ν → μ) {es : List (κ × ν)} (h : es.Pairwise Before) (m : OrderedMap κ μ)
    (k : κ) : (es.foldl (fun m e => m.insert e.1 (f e.2)) m).get? k =
      ((lookup k es).map f).or (m.get? k) := by
  induction es generalizing m with
  | nil => rfl
  | cons d es ih =>
    obtain ⟨j, v⟩ := d
    rw [List.foldl_cons, ih (List.pairwise_cons.1 h).2]
    by_cases hk : k = j
    · subst hk
      rw [lookup_eq_none_of_notMem (List.nodup_cons.1 (nodup_keys h)).1, get?_insert_self]
      simp [lookup]
    · rw [lookup_cons_of_ne hk, get?_insert_of_ne _ hk]

theorem get?_ofList {es : List (κ × ν)} (h : es.Pairwise Before) (k : κ) :
    (ofList es).get? k = lookup k es := by
  have hget := get?_foldl_insert id h empty k
  rw [get?_empty, Option.or_none, Option.map_id] at hget
  exact hget

theorem ofList_entries (m : OrderedMap κ ν) : ofList m.entries = m :=
  ext_get? fun k => get?_ofList m.ascending k

/-- The map with each value replaced by one that is made from it and its key. -/
def mapWithKey (f : κ → ν → μ) (m : OrderedMap κ ν) : OrderedMap κ μ where
  entries := m.entries.map fun e => (e.1, f e.1 e.2)
  ascending := by
    rw [List.pairwise_map]
    exact m.ascending

theorem get?_mapWithKey (f : κ → ν → μ) (m : OrderedMap κ ν) (k : κ) :
    (m.mapWithKey f).get? k = (m.get? k).map (f k) := by
  refine Option.ext fun w => ?_
  rw [← mem_entries, Option.map_eq_some_iff]
  constructor
  · intro hmem
    obtain ⟨⟨j, v⟩, hjv, he⟩ := List.mem_map.1 hmem
    obtain ⟨rfl, rfl⟩ := Prod.mk.inj he
    exact ⟨v, mem_entries.1 hjv, rfl⟩
  · rintro ⟨v, hv, rfl⟩
    exact List.mem_map.2 ⟨(k, v), mem_entries.2 hv, rfl⟩

theorem mapWithKey_insert (f : κ → ν → μ) (m : OrderedMap κ ν) (k : κ) (v : ν) :
    (m.insert k v).mapWithKey f = (m.mapWithKey f).insert k (f k v) := by
  refine ext_get? fun j => ?_
  rw [get?_mapWithKey]
  by_cases hj : j = k
  · subst hj
    rw [get?_insert_self, get?_insert_self]
    rfl
  · rw [get?_insert_of_ne _ hj, get?_insert_of_ne _ hj, get?_mapWithKey]

end Footage.OrderedMap
