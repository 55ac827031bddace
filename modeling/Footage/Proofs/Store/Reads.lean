import Footage.Proofs.Store.Entries
import Footage.Proofs.Task

/-!
# Pages of a range read

What a range read answers is one page of the items that it selects. `Answers` says what a page may be:
a `Cut` of them, short or even empty, with a key from which the rest is reached and which is not before
the place where the read resumed. A store that answers so (`Serves`) loses no item to paging, however it
cuts its pages, since the read resumed after a page selects exactly what the page left
(`Answers.select_resumed`). The store in memory is one (`Memory.serves`).
-/

namespace Footage

/-- The items of each partition come in ascending order. -/
def Ascending (items : List Item) : Prop :=
  items.Pairwise fun a b => a.key.partition = b.key.partition → a.key.sort < b.key.sort

/-- The last of some ascending items has the greatest number. -/
theorem sort_le_of_getLast? {is : List Item} {last : Item}
    (h : is.Pairwise fun a b => a.key.sort < b.key.sort) (hlast : is.getLast? = some last) :
    ∀ i ∈ is, i.key.sort ≤ last.key.sort := by
  obtain ⟨init, rfl⟩ := List.getLast?_eq_some_iff.1 hlast
  intro i hi
  rcases List.mem_append.1 hi with hi | hi
  · exact Int.le_of_lt ((List.pairwise_append.1 h).2.2 i hi last (by simp))
  · obtain rfl := List.mem_singleton.1 hi
    exact Int.le_refl _

namespace RangeRead

/-- The items that a query may still return. -/
def select (q : RangeRead) (items : List Item) : List Item := items.filter (q.Covers ·.key)

theorem mem_select {q : RangeRead} {items : List Item} {i : Item} :
    i ∈ q.select items ↔ i ∈ items ∧ q.Covers i.key := by
  unfold select
  rw [List.mem_filter, decide_eq_true_eq]

theorem pairwise_select {items : List Item} (h : Ascending items) (q : RangeRead) :
    (q.select items).Pairwise fun a b => a.key.sort < b.key.sort := by
  refine (h.filter _).imp_of_mem fun {a b} ha hb hab => hab ?_
  rw [(mem_select.1 ha).2.1, (mem_select.1 hb).2.1]

@[simp] theorem resumed_resumed (q : RangeRead) (j k : Option Key) :
    (q.resumed j).resumed k = q.resumed k := rfl

theorem lower_le_least (q : RangeRead) : q.lower ≤ q.least := by
  unfold least
  split
  · exact Int.le_max_left _ _
  · exact Int.le_refl _

theorem least_resumed_of_lt (q : RangeRead) {k : Key} (hlt : k.sort < Stamp.greatest) :
    (q.resumed (some k)).least = max q.lower (k.sort + 1) := by
  show max q.lower (min (k.sort + 1) Stamp.greatest) = _
  rw [Int.min_eq_left (by omega)]

/-- The least number at which a page may break off: it may be before the range, but not before the number
from which the read resumes. -/
def floor (q : RangeRead) : Int := ({ q with lower := min q.lower Stamp.least } : RangeRead).least

theorem floor_le_least (q : RangeRead) : q.floor ≤ q.least := by
  rcases q with ⟨_, lower, _, _ | key, _⟩
  · exact Int.min_le_left _ _
  · show max (min lower Stamp.least) (Stamp.next key.sort) ≤ max lower (Stamp.next key.sort)
    exact Int.max_le.2 ⟨Int.le_trans (Int.min_le_left _ _) (Int.le_max_left _ _), Int.le_max_right _ _⟩

theorem least_le_floor {q : RangeRead} (h : Stamp.least ≤ q.lower) : Stamp.least ≤ q.floor := by
  have hfloor : min q.lower Stamp.least ≤ q.floor :=
    lower_le_least { q with lower := min q.lower Stamp.least }
  rwa [Int.min_eq_right h] at hfloor

/-- From a number on at which a page may break off, the whole range is still to come. -/
theorem least_le_of_floor_le {q : RangeRead} {t s : Int} (ht : q.floor ≤ t) (hts : t ≤ s)
    (hl : q.lower ≤ s) : q.least ≤ s := by
  rcases q with ⟨_, lower, _, _ | key, _⟩
  · exact hl
  · have hnext : Stamp.next key.sort ≤ t := Int.le_trans (Int.le_max_right _ _) ht
    exact Int.max_le.2 ⟨hl, Int.le_trans hnext hts⟩

end RangeRead

/-- `page` is a first part of what the query selects from these items. The rest is `left`, and if there is
any the page names a key that is between the two. -/
structure Cut (items : List Item) (q : RangeRead) (page : RangePage) (left : List Item) : Prop where
  select_eq : q.select items = page.items ++ left
  complete : page.next = none → left = []
  partition_eq : ∀ k ∈ page.next, k.partition = q.partition
  le_upper : ∀ k ∈ page.next, k.sort ≤ q.upper
  le_next : ∀ k ∈ page.next, ∀ i ∈ page.items, i.key.sort ≤ k.sort
  next_lt : ∀ k ∈ page.next, ∀ i ∈ left, k.sort < i.key.sort

namespace Cut

/-- A page may hold all that is selected. -/
theorem all (items : List Item) (q : RangeRead) : Cut items q ⟨q.select items, none⟩ [] := by
  refine ⟨(List.append_nil _).symm, fun _ => rfl, ?_, ?_, ?_, ?_⟩ <;>
    exact fun k hk => absurd hk (by simp)

/-- A page may break off at a key between its items and the others. -/
theorem named {items taken left : List Item} {q : RangeRead} {k : Key} (hsel : q.select items = taken ++ left)
    (hp : k.partition = q.partition) (hu : k.sort ≤ q.upper) (hle : ∀ i ∈ taken, i.key.sort ≤ k.sort)
    (hlt : ∀ i ∈ left, k.sort < i.key.sort) : Cut items q ⟨taken, some k⟩ left := by
  refine ⟨hsel, fun h => absurd h (by simp), ?_, ?_, ?_, ?_⟩ <;> rintro _ ⟨⟩
  · exact hp
  · exact hu
  · exact hle
  · exact hlt

end Cut

/-- `page` may answer the query `q` of a store with these items, and leaves `left` for later pages. -/
structure Answers (items : List Item) (q : RangeRead) (page : RangePage) (left : List Item) : Prop
    extends Cut items q page left where
  floor_le : ∀ k ∈ page.next, q.floor ≤ k.sort

namespace Answers

variable {items : List Item} {q : RangeRead} {page : RangePage} {left : List Item} {k : Key}

/-- The read resumed after a page selects what the page left, if there is a number after its key. -/
theorem select_resumed_of_lt (h : Answers items q page left) (hk : k ∈ page.next)
    (hlt : k.sort < Stamp.greatest) : (q.resumed (some k)).select items = left := by
  have hleast := RangeRead.least_resumed_of_lt q hlt
  have hcov : ∀ i ∈ items, decide ((q.resumed (some k)).Covers i.key) =
      (decide (k.sort < i.key.sort) && decide (q.Covers i.key)) := by
    intro i _
    rw [← Bool.decide_and]
    refine decide_eq_decide.2 ?_
    unfold RangeRead.Covers
    rw [hleast]
    show i.key.partition = q.partition ∧ max q.lower (k.sort + 1) ≤ i.key.sort ∧ i.key.sort ≤ q.upper ↔
      k.sort < i.key.sort ∧ i.key.partition = q.partition ∧ q.least ≤ i.key.sort ∧ i.key.sort ≤ q.upper
    have hq := q.lower_le_least
    constructor
    · rintro ⟨hp, hs, hup⟩
      have hl := RangeRead.least_le_of_floor_le (h.floor_le k hk) (s := i.key.sort) (by omega) (by omega)
      exact ⟨by omega, hp, hl, hup⟩
    · rintro ⟨hs, hp, hl, hup⟩
      exact ⟨hp, by omega, hup⟩
  unfold RangeRead.select
  rw [List.filter_congr hcov, ← List.filter_filter]
  show (q.select items).filter (fun i => decide (k.sort < i.key.sort)) = left
  rw [h.select_eq, List.filter_append, List.filter_eq_nil_iff.2, List.filter_eq_self.2,
    List.nil_append]
  · intro i hi
    exact decide_eq_true (h.next_lt k hk i hi)
  · intro i hi
    have := h.le_next k hk i hi
    rw [decide_eq_true_eq]
    omega

theorem lt_greatest (h : Answers items q page left) (hu : q.upper < Stamp.greatest)
    (hk : k ∈ page.next) : k.sort < Stamp.greatest := Int.lt_of_le_of_lt (h.le_upper k hk) hu

/-- A page that names a key raises the floor past it. -/
theorem floor_resumed (h : Answers items q page left) (hu : q.upper < Stamp.greatest)
    (hk : k ∈ page.next) : k.sort < (q.resumed (some k)).floor := by
  have hlt := h.lt_greatest hu hk
  show k.sort < max (min q.lower Stamp.least) (min (k.sort + 1) Stamp.greatest)
  omega

theorem select_resumed (h : Answers items q page left) (hu : q.upper < Stamp.greatest)
    (hk : k ∈ page.next) : (q.resumed (some k)).select items = left :=
  h.select_resumed_of_lt hk (h.lt_greatest hu hk)

/-- After an empty page the next one is as good as the first. -/
theorem of_empty {page' : RangePage} {left' : List Item} (h : Answers items q page left)
    (hu : q.upper < Stamp.greatest) (he : page.items = []) (hk : k ∈ page.next)
    (h' : Answers items (q.resumed (some k)) page' left') : Answers items q page' left' where
  select_eq := by
    rw [h.select_eq, he, List.nil_append, ← h.select_resumed hu hk, h'.select_eq]
  complete := h'.complete
  partition_eq := h'.partition_eq
  floor_le j hj := by
    have := h'.floor_le j hj
    have := h.floor_le k hk
    have := h.floor_resumed hu hk
    omega
  le_upper := h'.le_upper
  le_next := h'.le_next
  next_lt := h'.next_lt

end Answers

/-- In states that satisfy `I` the store answers every range read from these items or fails with an
error that satisfies `E`, and stays in such a state. -/
structure Serves {σ : Type} (b : Backend σ) (I : σ → Prop) (E : StoreError → Prop) (items : List Item) :
    Prop where
  read (q : RangeRead) (s : σ) (hI : I s) :
    Task.Ends I E (fun page => ∃ left, Answers items q page left) (b.read q s)

/-! ## The store in memory -/

namespace Memory

theorem ascending_items (m : Memory) : Ascending m.items := by
  unfold Ascending items
  rw [List.pairwise_map]
  refine m.rows.ascending.imp fun {a b} hab hp => ?_
  have h : (compare a.1.partition b.1.partition).then (compare a.1.sort b.1.sort) = .lt := hab
  rw [show a.1.partition = b.1.partition from hp, Std.compare_self] at h
  exact Int.compare_eq_lt.1 h

theorem ascending_partition (m : Memory) (p : String) :
    (m.partition p).Pairwise fun a b => a.key.sort < b.key.sort := by
  refine (m.ascending_items.filter _).imp_of_mem fun {a b} ha hb hab => hab ?_
  rw [of_decide_eq_true (List.mem_filter.1 ha).2, of_decide_eq_true (List.mem_filter.1 hb).2]

theorem one_le_pageLimit {m : Memory} {q : RangeRead} {n : Nat} (h : m.pageLimit q = some n) :
    1 ≤ n := by
  unfold pageLimit at h
  obtain ⟨a, -, rfl⟩ := Option.map_eq_some_iff.1 h
  exact Nat.le_max_left 1 a

theorem answers_page (m : Memory) (q : RangeRead) :
    ∃ left, Answers m.items q (m.page q) left := by
  have hall : ∃ left, Answers m.items q ⟨q.select m.items, none⟩ left :=
    ⟨[], Cut.all _ _, fun k hk => absurd hk (by simp)⟩
  unfold page
  cases hn : m.pageLimit q with
  | none => exact hall
  | some n =>
    show ∃ left, Answers m.items q
      ⟨(q.select m.items).take n, if ((q.select m.items).take n).length = n then
        ((q.select m.items).take n).getLast?.map (·.key) else none⟩ left
    by_cases hlen : ((q.select m.items).take n).length = n
    · -- a full page has a last item, whose key it names
      have hne : (q.select m.items).take n ≠ [] := by
        have := one_le_pageLimit hn
        exact List.ne_nil_of_length_pos (by omega)
      have hlast := List.getLast?_eq_some_getLast hne
      generalize ((q.select m.items).take n).getLast hne = i at hlast
      have hmem := List.mem_of_getLast? hlast
      obtain ⟨hp, hl, hu⟩ := (RangeRead.mem_select.1 (List.mem_of_mem_take hmem)).2
      have hasc := RangeRead.pairwise_select m.ascending_items q
      rw [← List.take_append_drop n (q.select m.items), List.pairwise_append] at hasc
      rw [if_pos hlen, hlast, Option.map_some]
      refine ⟨(q.select m.items).drop n, Cut.named (List.take_append_drop n _).symm hp hu
        (sort_le_of_getLast? hasc.1 hlast) fun j hj => hasc.2.2 i hmem j hj, ?_⟩
      rintro _ ⟨⟩
      exact Int.le_trans q.floor_le_least hl
    · have htake : (q.select m.items).take n = q.select m.items := by
        rw [List.length_take] at hlen
        exact List.take_of_length_le (by omega)
      rw [if_neg hlen, htake]
      exact hall

theorem mem_page (m : Memory) {q : RangeRead} {i : Item} (hi : i ∈ (m.page q).items) :
    i ∈ m.items ∧ q.Covers i.key := by
  obtain ⟨left, h⟩ := m.answers_page q
  exact RangeRead.mem_select.1 (h.select_eq ▸ List.mem_append_left left hi)

/-- The key that a page names is that of its last item. -/
theorem covers_of_mem_next (m : Memory) {q : RangeRead} {k : Key} (hk : k ∈ (m.page q).next) :
    q.Covers k := by
  have hmem : ∃ i ∈ (m.page q).items, i.key = k := by
    unfold page at *
    cases hn : m.pageLimit q with
    | none =>
      rw [hn] at hk
      exact absurd hk (by simp)
    | some n =>
      rw [hn] at hk
      simp only [Option.mem_def, Option.ite_none_right_eq_some] at hk
      obtain ⟨i, hi, rfl⟩ := Option.map_eq_some_iff.1 hk.2
      exact ⟨i, List.mem_of_getLast? hi, rfl⟩
  obtain ⟨i, hi, rfl⟩ := hmem
  exact (m.mem_page hi).2

/-- The error is an outage. -/
def IsOutage (e : StoreError) : Prop := ∃ o, e = .outage o

/-- A store in memory answers from its items, or with an outage. -/
theorem serves (m : Memory) : Serves backend (·.rows = m.rows) IsOutage m.items where
  read q s hs := by
    show Task.Ends _ _ _ (Memory.read q s)
    unfold Memory.read
    by_cases hr : s.faults.read
    · simp only [hr, if_true]
      exact ⟨hs, _, rfl⟩
    · simp only [hr, if_false, Bool.false_eq_true]
      by_cases hf : s.faults.readsFrom.any (· ≤ s.attempt)
      · simp only [hf, if_true]
        exact ⟨hs, _, rfl⟩
      · simp only [hf, if_false, Bool.false_eq_true]
        refine ⟨hs, ?_⟩
        rw [← items_congr hs]
        exact answers_page s q

/-- The store fails no range read. -/
def Readable (m : Memory) : Prop := m.faults.read = false ∧ m.faults.readsFrom = none

theorem read_eq {m : Memory} (h : m.Readable) (q : RangeRead) :
    backend.read q m = (.ok (m.page q), { m with reads := m.reads + 1 }) := by
  obtain ⟨hr, hf⟩ := h
  show Memory.read q m = _
  unfold Memory.read
  simp only [hr, hf, Option.any_none, Bool.false_eq_true, if_false]

/-- A store in memory that fails no range read answers each from its items. -/
theorem serves_readable (m : Memory) :
    Serves backend (fun s => s.rows = m.rows ∧ s.Readable) (fun _ => False) m.items where
  read q s hs := by
    obtain ⟨hrows, hread⟩ := hs
    rw [read_eq hread]
    refine ⟨⟨hrows, hread⟩, ?_⟩
    rw [← items_congr hrows]
    exact answers_page s q

end Memory

end Footage
