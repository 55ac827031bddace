import Footage.Proofs.Store.Reads

/-!
# Sweeps of a range

A caller who wants all the items of a range asks for one page after the other, each after the key that the
page before named, until a page names none. From call to call the limits may change, that of the read as well
as that of the store.

1. One call answers a first part of what is still to come, within both limits, and the next call has the rest
   to come (`call_portion`). A page that names a key is not empty.
2. So what is to come gets less with every call, and a sweep comes to its end with every item of the range
   (`exists_sweeps`).
-/

namespace Footage

namespace RangeRead

/-- After a key nothing up to its number is to come, wherever the key is. -/
theorem select_resumed_eq {q : RangeRead} (hu : q.upper < Stamp.greatest) (k : Key) (items : List Item) :
    (q.resumed (some k)).select items =
      ((q.resumed none).select items).filter (k.sort < ·.key.sort) := by
  unfold select
  rw [List.filter_filter]
  refine List.filter_congr fun i _ => ?_
  rw [← Bool.decide_and]
  refine decide_eq_decide.2 ?_
  show i.key.partition = q.partition ∧ max q.lower (min (k.sort + 1) Stamp.greatest) ≤ i.key.sort ∧
      i.key.sort ≤ q.upper ↔
    k.sort < i.key.sort ∧ i.key.partition = q.partition ∧ q.lower ≤ i.key.sort ∧ i.key.sort ≤ q.upper
  -- the next number is cut off only past the range
  constructor
  · rintro ⟨hp, hl, hle⟩
    exact ⟨by omega, hp, by omega, hle⟩
  · rintro ⟨hk, hp, hl, hle⟩
    exact ⟨hp, by omega, hle⟩

end RangeRead

namespace Memory

/-- The limits that hold in one call: that of the read and that of the store. -/
structure Limits where
  ofRead : Option Nat := none
  ofStore : Option Nat := none

/-- One of the limits is `n`. -/
def Limits.Has (l : Limits) (n : Nat) : Prop := l.ofRead = some n ∨ l.ofStore = some n

/-- One call of a sweep. -/
def call (l : Limits) (q : RangeRead) (after : Option Key) : StoreTask Memory RangePage := fun m =>
  backend.read { q with after, limit := l.ofRead } { m with pageSize := l.ofStore }

/-- The pages of a range from a key on, up to the first that names none. The calls have numbers, each with
its limits. -/
inductive Sweeps (limits : Nat → Limits) (q : RangeRead) :
    Nat → Option Key → Memory → List RangePage → Prop
  | last {n after m page m'} (h : call (limits n) q after m = (.ok page, m')) (hend : page.next = none) :
      Sweeps limits q n after m [page]
  | more {n after m page m' k pages} (h : call (limits n) q after m = (.ok page, m'))
      (hk : page.next = some k) (rest : Sweeps limits q (n + 1) (some k) m' pages) :
      Sweeps limits q n after m (page :: pages)

variable {m : Memory} {q : RangeRead} {l : Limits} {limits : Nat → Limits} {after : Option Key} {n : Nat}

theorem Sweeps.unique {pages pages' : List RangePage} (h : Sweeps limits q n after m pages)
    (h' : Sweeps limits q n after m pages') : pages' = pages := by
  induction h generalizing pages' with
  | last h hend =>
    cases h' with
    | last h' =>
      rw [h] at h'
      obtain rfl := Except.ok.inj (Prod.mk.inj h').1
      rfl
    | more h' hk =>
      rw [h] at h'
      obtain rfl := Except.ok.inj (Prod.mk.inj h').1
      exact absurd (hend.symm.trans hk) (by simp)
  | more h hk rest ih =>
    cases h' with
    | last h' hend =>
      rw [h] at h'
      obtain rfl := Except.ok.inj (Prod.mk.inj h').1
      exact absurd (hend.symm.trans hk) (by simp)
    | more h' hk' rest' =>
      rw [h] at h'
      obtain ⟨hpage, rfl⟩ := Prod.mk.inj h'
      obtain rfl := Except.ok.inj hpage
      obtain rfl := Option.some.inj (hk.symm.trans hk')
      rw [ih rest']

/-! ## One call -/

theorem length_page_le (m : Memory) (q : RangeRead) :
    ∀ n ∈ m.pageLimit q, (m.page q).items.length ≤ n := by
  intro n hn
  unfold page
  rw [Option.mem_def.1 hn]
  exact List.length_take_le n _

/-- Each of the two limits bounds the page, where 0 stands for 1. -/
theorem exists_pageLimit {q : RangeRead} {a : Nat} (h : q.limit = some a ∨ m.pageSize = some a) :
    ∃ n ∈ m.pageLimit q, n ≤ max a 1 := by
  unfold pageLimit
  rcases h with h | h
  · rw [h]
    cases m.pageSize with
    | none => exact ⟨max 1 a, rfl, by omega⟩
    | some b => exact ⟨max 1 (min a b), rfl, by omega⟩
  · rw [h]
    cases q.limit with
    | none => exact ⟨max 1 a, rfl, by omega⟩
    | some b => exact ⟨max 1 (min b a), rfl, by omega⟩

/-- What a page takes of the items to come after a key, and what it leaves. -/
structure Portion (items : List Item) (l : Limits) (q : RangeRead) (after : Option Key) (page : RangePage)
    (left : List Item) : Prop where
  select_eq : (q.resumed after).select items = page.items ++ left
  complete : page.next = none → left = []
  resumed : ∀ k ∈ page.next, (q.resumed (some k)).select items = left
  ne_nil : ∀ k ∈ page.next, page.items ≠ []
  length_le : ∀ a, l.Has a → page.items.length ≤ max a 1

/-- A call answers with a portion, and leaves a store that is as good as before. -/
theorem call_portion (hm : m.Readable) (hu : q.upper < Stamp.greatest) (l : Limits) (after : Option Key) :
    ∃ page m' left, call l q after m = (.ok page, m') ∧ m'.rows = m.rows ∧ m'.Readable ∧
      Portion m.items l q after page left := by
  let m₁ : Memory := { m with pageSize := l.ofStore }
  let q₁ : RangeRead := { q with after, limit := l.ofRead }
  have hread : call l q after m = (.ok (m₁.page q₁), { m₁ with reads := m₁.reads + 1 }) :=
    read_eq (m := m₁) hm q₁
  obtain ⟨left, hans⟩ := m₁.answers_page q₁
  refine ⟨m₁.page q₁, _, left, hread, rfl, hm, hans.select_eq, hans.complete,
    fun k hk => hans.select_resumed hu hk, fun k hk hnil => ?_, fun a ha => ?_⟩
  · -- without items the page would be full with none, or not full
    have hnone : (m₁.page q₁).next = none := by
      unfold page at hnil ⊢
      cases hlimit : m₁.pageLimit q₁ with
      | none => rfl
      | some n =>
        rw [hlimit] at hnil
        have hn := one_le_pageLimit hlimit
        show (if ((m₁.matching q₁).take n).length = n then _ else none) = none
        rw [show (m₁.matching q₁).take n = [] from hnil]
        exact if_neg (show ¬ 0 = n by omega)
    exact absurd ((Option.mem_def.1 hk).symm.trans hnone) (by simp)
  · obtain ⟨n, hn, hle⟩ := exists_pageLimit (m := m₁) (q := q₁) ha
    exact Nat.le_trans (m₁.length_page_le q₁ n hn) hle

/-! ## A whole sweep -/

/-- From any key on a sweep comes to its end, with all that was to come. -/
theorem exists_sweeps (hm : m.Readable) (hu : q.upper < Stamp.greatest) (limits : Nat → Limits) (n : Nat)
    (after : Option Key) :
    ∃ pages, Sweeps limits q n after m pages ∧
      pages.flatMap (·.items) = (q.resumed after).select m.items ∧
      ∀ i page, pages[i]? = some page → ∀ a, (limits (n + i)).Has a → page.items.length ≤ max a 1 := by
  induction hlen : ((q.resumed after).select m.items).length using Nat.strongRecOn
    generalizing n after m with
  | ind len ih =>
    obtain ⟨page, m', left, hcall, hrows, hm', hportion⟩ := call_portion hm hu (limits n) after
    cases hnext : page.next with
    | none =>
      refine ⟨[page], .last hcall hnext, ?_, ?_⟩
      · rw [hportion.select_eq, hportion.complete hnext]
        simp
      · intro i page' hpage
        obtain ⟨rfl, rfl⟩ : i = 0 ∧ page = page' := by
          cases i with
          | zero => exact ⟨rfl, Option.some.inj hpage⟩
          | succ i => exact absurd hpage (by simp)
        exact hportion.length_le
    | some k =>
      have hk : k ∈ page.next := Option.mem_def.2 hnext
      have hleft : (q.resumed (some k)).select m'.items = left := by
        rw [items_congr hrows]
        exact hportion.resumed k hk
      have hpos := List.length_pos_iff.2 (hportion.ne_nil k hk)
      have hless : left.length < len := by
        rw [← hlen, hportion.select_eq, List.length_append]
        omega
      obtain ⟨pages, hsweeps, hitems, hlimits⟩ := ih left.length hless hm' (n + 1) (some k) (by rw [hleft])
      refine ⟨page :: pages, .more hcall hnext hsweeps, ?_, ?_⟩
      · rw [List.flatMap_cons, hitems, hleft, hportion.select_eq]
      · intro i page' hpage
        cases i with
        | zero =>
          obtain rfl := Option.some.inj hpage
          exact hportion.length_le
        | succ i =>
          rw [show n + (i + 1) = n + 1 + i by omega]
          exact hlimits i page' hpage

/-- **A range is read in full, however it is cut.** A sweep ends and has each item of its range once, though the
limits on its pages change from call to call. -/
theorem sweep_complete (m : Memory) (hm : m.Readable) (q : RangeRead) (hu : q.upper < Stamp.greatest)
    (limits : Nat → Limits) :
    let range := m.items.filter fun i =>
      i.key.partition = q.partition ∧ q.lower ≤ i.key.sort ∧ i.key.sort ≤ q.upper
    range.Pairwise (fun i j => i.key.sort < j.key.sort) ∧
    (∃ pages, Sweeps limits q 0 none m pages ∧
      (∀ pages', Sweeps limits q 0 none m pages' → pages' = pages) ∧
      pages.flatMap (·.items) = range ∧
      ∀ n page, pages[n]? = some page → ∀ a, (limits n).Has a → page.items.length ≤ max a 1) ∧
    ∀ (l : Limits) (k : Key),
      let later := range.filter (k.sort < ·.key.sort)
      ∃ page m', call l q (some k) m = (.ok page, m') ∧ page.items <+: later ∧
        (page.next = none → page.items = later) ∧ ∀ a, l.Has a → page.items.length ≤ max a 1 := by
  intro range
  have hrange : (q.resumed none).select m.items = range := rfl
  refine ⟨hrange ▸ RangeRead.pairwise_select m.ascending_items _, ?_, fun l k => ?_⟩
  · obtain ⟨pages, hsweeps, hitems, hlimits⟩ := exists_sweeps hm hu limits 0 none
    refine ⟨pages, hsweeps, fun _ h => hsweeps.unique h, hitems, fun n page hpage a ha => ?_⟩
    exact hlimits n page hpage a (by rwa [Nat.zero_add])
  · intro later
    have hlater : (q.resumed (some k)).select m.items = later := RangeRead.select_resumed_eq hu k m.items
    obtain ⟨page, m', left, hcall, -, -, hportion⟩ := call_portion hm hu l (some k)
    have hparts : later = page.items ++ left := hlater.symm.trans hportion.select_eq
    refine ⟨page, m', hcall, ⟨left, hparts.symm⟩, fun hnext => ?_, hportion.length_le⟩
    rw [hparts, hportion.complete hnext, List.append_nil]

/-- Three items and one of another partition, with a limit of nothing in the store, then no limit, then two on
the read. -/
theorem sweep_complete_uneven :
    let items : List Item := [.bare ⟨"p", -5⟩, .bare ⟨"p", 0⟩, .bare ⟨"p", 7⟩, .bare ⟨"pp", 1⟩]
    let m : Memory := items.foldl store {}
    let q : RangeRead := { partition := "p", lower := -5, upper := 7 }
    let limits : Nat → Limits := fun n =>
      if n = 0 then { ofStore := some 0 } else if n = 1 then {} else { ofRead := some 2 }
    (∃ pages, Sweeps limits q 0 none m pages ∧ pages.flatMap (·.items) = items.take 3 ∧
      ∀ page, pages[0]? = some page → page.items.length ≤ 1) ∧
    ∃ page m', call { ofRead := some 2 } q (some ⟨"p", -4⟩) m = (.ok page, m') ∧
      page.items <+: [.bare ⟨"p", 0⟩, .bare ⟨"p", 7⟩] := by
  intro items m q limits
  have hrange : m.items.filter (fun i => i.key.partition = q.partition ∧ q.lower ≤ i.key.sort ∧
      i.key.sort ≤ q.upper) = items.take 3 := by decide +kernel
  obtain ⟨-, ⟨pages, hsweeps, -, hitems, hlimits⟩, hlater⟩ := sweep_complete m ⟨rfl, rfl⟩ q (by decide) limits
  rw [hrange] at hitems hlater
  obtain ⟨page, m', hcall, hprefix, -⟩ := hlater { ofRead := some 2 } ⟨"p", -4⟩
  have hone : ∀ page ∈ pages[0]?, page.items.length ≤ 1 := fun page hpage => hlimits 0 page hpage 0 (.inr rfl)
  exact ⟨⟨pages, hsweeps, hitems, hone⟩, page, m', hcall, hprefix⟩

end Memory

end Footage
