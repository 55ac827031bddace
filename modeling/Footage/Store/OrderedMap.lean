/-!
# Ordered maps

A finite map is kept as its entries in ascending order of keys, each key once. Two maps with the same
bindings are therefore equal (`ext_get?`), and a range of keys is a stretch of the entries.
-/

namespace Footage

open Std

universe u v

variable {κ : Type u} {ν : Type v} [Ord κ]

namespace OrderedMap

/-- The key of `a` comes before the key of `b`. -/
def Before (a b : κ × ν) : Prop := compare a.1 b.1 = .lt

/-- The entries with `k` bound to `v`. -/
def place (k : κ) (v : ν) : List (κ × ν) → List (κ × ν)
  | [] => [(k, v)]
  | e :: rest =>
    match compare k e.1 with
    | .lt => (k, v) :: e :: rest
    | .eq => (k, v) :: rest
    | .gt => e :: place k v rest

/-- The value that the entries bind to `k`. -/
def lookup (k : κ) : List (κ × ν) → Option ν
  | [] => none
  | e :: rest => if compare k e.1 = .eq then some e.2 else lookup k rest

theorem mem_place {k : κ} {v : ν} {e : κ × ν} :
    ∀ {es : List (κ × ν)}, e ∈ place k v es → e = (k, v) ∨ e ∈ es
  | [], h => by simp_all [place]
  | d :: rest, h => by
    unfold place at h
    split at h
    · exact List.mem_cons.1 h
    · exact (List.mem_cons.1 h).imp id (List.mem_cons_of_mem _)
    · rcases List.mem_cons.1 h with h | h
      · simp [h]
      · exact (mem_place h).imp id (List.mem_cons_of_mem _)

theorem pairwise_place [TransOrd κ] (k : κ) (v : ν) :
    ∀ {es : List (κ × ν)}, es.Pairwise Before → (place k v es).Pairwise Before
  | [], _ => by simp [place]
  | d :: rest, h => by
    have hd := List.pairwise_cons.1 h
    unfold place
    split
    · next hk =>
      refine List.pairwise_cons.2 ⟨fun e he => ?_, h⟩
      rcases List.mem_cons.1 he with rfl | he
      · exact hk
      · exact TransCmp.lt_trans hk (hd.1 e he)
    · next hk =>
      exact List.pairwise_cons.2
        ⟨fun e he => TransCmp.lt_of_eq_of_lt hk (hd.1 e he), hd.2⟩
    · next hk =>
      refine List.pairwise_cons.2 ⟨fun e he => ?_, pairwise_place k v hd.2⟩
      rcases mem_place he with rfl | he
      · exact OrientedCmp.lt_of_gt hk
      · exact hd.1 e he

theorem lookup_place_self [TransOrd κ] (k : κ) (v : ν) :
    ∀ es : List (κ × ν), lookup k (place k v es) = some v
  | [] => by simp [place, lookup]
  | d :: rest => by
    unfold place
    split
    · simp [lookup]
    · simp [lookup]
    · next hk => simp [lookup, hk, lookup_place_self k v rest]

theorem lookup_place_of_ne [TransOrd κ] [LawfulEqOrd κ] {j k : κ} (h : j ≠ k) (v : ν) :
    ∀ es : List (κ × ν), lookup j (place k v es) = lookup j es
  | [] => by simp [place, lookup, h]
  | d :: rest => by
    unfold place
    split
    · simp [lookup, h]
    · next hk =>
      have hk := LawfulEqOrd.eq_of_compare hk
      simp [lookup, ← hk, h]
    · simp [lookup, lookup_place_of_ne h v rest]

theorem lookup_cons_of_ne [LawfulEqOrd κ] {j k : κ} (h : j ≠ k) (v : ν) (es : List (κ × ν)) :
    lookup j ((k, v) :: es) = lookup j es := if_neg fun hc => h (LawfulEqOrd.eq_of_compare hc)

theorem nodup_keys [LawfulEqOrd κ] {es : List (κ × ν)} (h : es.Pairwise Before) : (es.map (·.1)).Nodup := by
  refine List.pairwise_map.2 (h.imp fun {a b} hab heq => ?_)
  rw [Before, heq] at hab
  simp at hab

/-- Where no key is bound twice, a key is bound to the value with which it occurs. -/
theorem lookup_eq_some_iff_mem [LawfulEqOrd κ] {k : κ} {v : ν} {es : List (κ × ν)}
    (h : (es.map (·.1)).Nodup) : lookup k es = some v ↔ (k, v) ∈ es := by
  induction es with
  | nil => simp [lookup]
  | cons d es ih =>
    obtain ⟨j, w⟩ := d
    obtain ⟨hj, hes⟩ := List.nodup_cons.1 h
    rw [List.mem_cons, Prod.mk.injEq]
    by_cases hk : k = j
    · subst hk
      have hnot : (k, v) ∉ es := fun hmem => hj (List.mem_map.2 ⟨_, hmem, rfl⟩)
      simp [lookup, hnot, eq_comm]
    · rw [lookup_cons_of_ne hk, ih hes]
      simp [hk]

end OrderedMap

/-- A finite map, as its entries in ascending order of keys. -/
structure OrderedMap (κ : Type u) (ν : Type v) [Ord κ] where
  entries : List (κ × ν)
  ascending : entries.Pairwise OrderedMap.Before

namespace OrderedMap

instance [DecidableEq κ] [DecidableEq ν] : DecidableEq (OrderedMap κ ν) := fun a b =>
  decidable_of_iff (a.entries = b.entries) ⟨fun h => by cases a; cases b; simp_all, (· ▸ rfl)⟩

/-- The map without entries. -/
def empty : OrderedMap κ ν := ⟨[], .nil⟩

instance : Inhabited (OrderedMap κ ν) := ⟨empty⟩

/-- The value of a key. -/
def get? (m : OrderedMap κ ν) (k : κ) : Option ν := lookup k m.entries

/-- The map with a key bound to a value, whatever it was bound to before. -/
def insert [TransOrd κ] (m : OrderedMap κ ν) (k : κ) (v : ν) : OrderedMap κ ν :=
  ⟨place k v m.entries, pairwise_place k v m.ascending⟩

/-- The map with these bindings; of two for one key the later counts. -/
def ofList [TransOrd κ] (es : List (κ × ν)) : OrderedMap κ ν :=
  es.foldl (fun m e => m.insert e.1 e.2) empty

/-- The number of keys. -/
def size (m : OrderedMap κ ν) : Nat := m.entries.length

@[simp] theorem get?_empty (k : κ) : (empty : OrderedMap κ ν).get? k = none := rfl

@[simp] theorem get?_insert_self [TransOrd κ] (m : OrderedMap κ ν) (k : κ) (v : ν) :
    (m.insert k v).get? k = some v := lookup_place_self k v m.entries

theorem get?_insert_of_ne [TransOrd κ] [LawfulEqOrd κ] (m : OrderedMap κ ν) {j k : κ} (h : j ≠ k)
    (v : ν) : (m.insert k v).get? j = m.get? j := lookup_place_of_ne h v m.entries

theorem mem_entries [TransOrd κ] [LawfulEqOrd κ] {m : OrderedMap κ ν} {k : κ} {v : ν} :
    (k, v) ∈ m.entries ↔ m.get? k = some v := (lookup_eq_some_iff_mem (nodup_keys m.ascending)).symm

theorem ext_get? [TransOrd κ] [LawfulEqOrd κ] {a b : OrderedMap κ ν}
    (h : ∀ k, a.get? k = b.get? k) : a = b := by
  have hab : ∀ e : κ × ν, e ∈ a.entries ↔ e ∈ b.entries := fun e => by
    rw [mem_entries, mem_entries, h]
  have nodup : ∀ m : OrderedMap κ ν, m.entries.Nodup := fun m =>
    List.Pairwise.of_map _ (fun _ _ hne he => hne (congrArg _ he)) (nodup_keys m.ascending)
  have perm : a.entries.Perm b.entries := (List.perm_ext_iff_of_nodup (nodup a) (nodup b)).2 hab
  have heq : a.entries = b.entries := perm.eq_of_pairwise
    (fun _ _ _ _ h₁ h₂ => absurd h₂ (by simp [Before, OrientedCmp.gt_of_lt h₁])) a.ascending b.ascending
  cases a; cases b
  simp_all

end OrderedMap

end Footage
