import Footage.Proofs.Alike
import Footage.Proofs.Store.Reads

/-!
# One partition of a store in memory

A call for a partition sees nothing of the others and changes nothing in them. Two stores that agree on
the partition end alike and agree again (`Agree.alike`), and a store that answers such calls keeps what
it holds elsewhere (`Beside.alike`). No call is failed on purpose here.
-/

namespace Footage

/-- Ascending lists with the same members are the same. -/
theorem eq_of_ascending {is js : List Item} (h : is.Pairwise fun a b => a.key.sort < b.key.sort)
    (h' : js.Pairwise fun a b => a.key.sort < b.key.sort) (hmem : ∀ i, i ∈ is ↔ i ∈ js) : is = js := by
  have nodup : ∀ {ls : List Item}, (ls.Pairwise fun a b => a.key.sort < b.key.sort) → ls.Nodup :=
    fun hls => hls.imp fun hlt he => by
      subst he
      omega
  have perm : is.Perm js := (List.perm_ext_iff_of_nodup (nodup h) (nodup h')).2 hmem
  exact perm.eq_of_pairwise (fun a b _ _ hab hba => absurd hab (by omega)) h h'

namespace Memory

variable {partition : String} {m m' : Memory}

theorem write_eq (h : m.faults = {}) (w : Write) :
    write w m = if w.guard.all (·.Holds (m.find? w.item.key)) then (.ok (), m.store w.item)
      else (.error (.guardFailed w.item.key), m) := by
  unfold write
  rw [h]
  rfl

theorem get_eq (h : m.faults = {}) (k : Key) : backend.get k m = (.ok (m.find? k), m) := by
  show (if m.faults.get then _ else _) = _
  rw [h]
  rfl

theorem readable_of_faults_eq (h : m.faults = {}) : m.Readable := by
  unfold Readable
  rw [h]
  exact ⟨rfl, rfl⟩

/-- The stores hold the same in the partition, page alike and fail nothing. -/
structure Agree (partition : String) (m m' : Memory) : Prop where
  find? : ∀ k : Key, k.partition = partition → m.find? k = m'.find? k
  pageSize : m.pageSize = m'.pageSize
  faults : m.faults = {}
  faults' : m'.faults = {}

/-- The store fails nothing and holds the same as `old` in every other partition. -/
structure Beside (partition : String) (old m : Memory) : Prop where
  find? : ∀ k : Key, k.partition ≠ partition → m.find? k = old.find? k
  pageSize : m.pageSize = old.pageSize
  faults : m.faults = {}

theorem Agree.matching_eq (h : Agree partition m m') {q : RangeRead} (hq : q.partition = partition) :
    m.matching q = m'.matching q := by
  refine eq_of_ascending (q.pairwise_select m.ascending_items) (q.pairwise_select m'.ascending_items)
    fun i => ?_
  show i ∈ q.select m.items ↔ i ∈ q.select m'.items
  rw [RangeRead.mem_select, RangeRead.mem_select, mem_items, mem_items]
  refine and_congr_left fun hc => ?_
  rw [h.find? i.key (hc.1.trans hq)]

theorem Agree.page_eq (h : Agree partition m m') {q : RangeRead} (hq : q.partition = partition) :
    m.page q = m'.page q := by
  unfold page pageLimit
  rw [h.matching_eq hq, h.pageSize]

theorem Agree.store (h : Agree partition m m') (i : Item) : Agree partition (m.store i) (m'.store i) where
  find? k hk := by
    by_cases hi : k = i.key
    · rw [hi, find?_store_self, find?_store_self]
    · rw [find?_store_of_ne m i hi, find?_store_of_ne m' i hi, h.find? k hk]
  pageSize := h.pageSize
  faults := h.faults
  faults' := h.faults'

theorem Agree.alike : Backend.Alike (Agree partition) partition backend backend where
  get k hk m m' h := by
    rw [get_eq h.faults, get_eq h.faults', h.find? k hk]
    exact ⟨rfl, h⟩
  write w hw m m' h := by
    show (write w m).1 = (write w m').1 ∧ Agree partition (write w m).2 (write w m').2
    rw [write_eq h.faults, write_eq h.faults', h.find? _ hw]
    by_cases hguard : w.guard.all (·.Holds (m'.find? w.item.key)) = true
    · rw [if_pos hguard, if_pos hguard]
      exact ⟨rfl, h.store w.item⟩
    · rw [if_neg hguard, if_neg hguard]
      exact ⟨rfl, h⟩
  read q hq m m' h := by
    rw [read_eq (readable_of_faults_eq h.faults), read_eq (readable_of_faults_eq h.faults'), h.page_eq hq]
    exact ⟨rfl, h.find?, h.pageSize, h.faults, h.faults'⟩
  idle _ _ _ := rfl

theorem Beside.refl (h : m.faults = {}) : Beside partition m m := ⟨fun _ _ => rfl, rfl, h⟩

theorem Beside.alike {old : Memory} :
    Backend.Alike (fun m m' => m = m' ∧ Beside partition old m) partition backend backend where
  get k _ m _ := by
    rintro ⟨rfl, h⟩
    rw [get_eq h.faults]
    exact ⟨rfl, rfl, h⟩
  write w hw m _ := by
    rintro ⟨rfl, h⟩
    refine ⟨rfl, rfl, ?_⟩
    show Beside partition old (write w m).2
    rw [write_eq h.faults]
    by_cases hguard : w.guard.all (·.Holds (m.find? w.item.key)) = true
    · rw [if_pos hguard]
      refine ⟨fun k hk => ?_, h.pageSize, h.faults⟩
      have hi : k ≠ w.item.key := fun he => hk (he ▸ hw)
      rw [find?_store_of_ne m w.item hi, h.find? k hk]
    · rw [if_neg hguard]
      exact h
  read q _ m _ := by
    rintro ⟨rfl, h⟩
    rw [read_eq (readable_of_faults_eq h.faults)]
    exact ⟨rfl, rfl, h.find?, h.pageSize, h.faults⟩
  idle _ _ _ := rfl

/-- Stores that agree on a partition still do when another one has been worked on in the first. -/
theorem Agree.of_beside {other : String} {old : Memory} (h : Agree partition old m')
    (hb : Beside other old m) (hne : partition ≠ other) : Agree partition m m' where
  find? k hk := (hb.find? k (hk ▸ hne)).trans (h.find? k hk)
  pageSize := hb.pageSize.trans h.pageSize
  faults := hb.faults
  faults' := h.faults'

theorem Agree.symm (h : Agree partition m m') : Agree partition m' m :=
  ⟨fun k hk => (h.find? k hk).symm, h.pageSize.symm, h.faults', h.faults⟩

end Memory

end Footage
