import Footage.Proofs.Archive.Reports
import Footage.Proofs.Follow
import Footage.Proofs.Store.Reads
import Footage.Proofs.Token

/-!
# Listings of fragments

A page of a listing shows the first of the records that are left, and its token names the last of them
if the page is full (`call_eq`).

1. A token of a time before the greatest stored number resumes with what the page has left
   (`Continues.rest_eq`). So the listing ends, and shows each record once (`exists_follows`).
2. There is no number after the greatest. A token of that time resumes with its record, which was shown
   already. It comes about where the record at the greatest time is the last one of a full page
   (`not_ascending_of_stuck`).

So a listing is exact if and only if it does not come to this (`listing_exact_iff`).
-/

namespace Footage.Archive

open Footage.Task

variable {p : Paging} {m : Memory} {device : String} {start stop : Int} {after : Option Key} {k : Key}
  {desk : Desk Memory} {token : Option String} {n : Nat} {left : List Item}

/-- The most records on a page: the smaller one of the two limits, at least one. -/
def pageLength (p : Paging) (m : Memory) : Nat :=
  max 1 ((m.pageSize.map (min p.fragmentLimit)).getD p.fragmentLimit)

/-- The items that a listing may still show after a key. -/
def rest (p : Paging) (m : Memory) (device : String) (start stop : Int) (after : Option Key) : List Item :=
  (query p device start stop after).select m.items

/-- The items that the page after a key shows. -/
def shown (p : Paging) (m : Memory) (device : String) (start stop : Int) (after : Option Key) :
    List Item := (rest p m device start stop after).take (pageLength p m)

/-- The items that it leaves for later pages. -/
def later (p : Paging) (m : Memory) (device : String) (start stop : Int) (after : Option Key) :
    List Item := (rest p m device start stop after).drop (pageLength p m)

/-- The calls of a listing. -/
def call (p : Paging) (device : String) (start stop : Int) (_ : Nat) (token : Option String) :
    DeskTask Memory FragmentPage := list Memory.backend p device start stop token

/-- The desk of a store that holds what `m` holds and fails no range read. -/
structure Serving (m : Memory) (desk : Desk Memory) : Prop where
  rows_eq : desk.store.rows = m.rows
  pageSize_eq : desk.store.pageSize = m.pageSize
  readable : desk.store.Readable

/-- A range of stored numbers, and a device of which all items are records. -/
structure Listable (m : Memory) (device : String) (start stop : Int) : Prop where
  le : start ≤ stop
  least_le : Stamp.least ≤ start
  le_greatest : stop ≤ Stamp.greatest
  readable : ∀ i ∈ m.partition (Fragment.partition device), ∃ f, Fragment.ofItem device i = .ok f

theorem pageLength_pos (p : Paging) (m : Memory) : 0 < pageLength p m := by
  unfold pageLength
  omega

theorem pageLength_le (p : Paging) (m : Memory) : pageLength p m ≤ p.fragmentLimit := by
  have h1 : 1 ≤ p.fragmentLimit := Nat.le_max_left _ _
  unfold pageLength
  cases m.pageSize with
  | none => exact Nat.max_le.2 ⟨h1, Nat.le_refl _⟩
  | some s => exact Nat.max_le.2 ⟨h1, Nat.min_le_left _ _⟩

theorem pageLimit_query : m.pageLimit (query p device start stop after) = some (pageLength p m) := by
  unfold Memory.pageLimit pageLength query
  cases m.pageSize <;> rfl

theorem mem_rest {i : Item} : i ∈ rest p m device start stop after ↔
    i ∈ m.partition (Fragment.partition device) ∧
      (query p device start stop after).least ≤ i.key.sort ∧ i.key.sort ≤ stop := by
  unfold rest Memory.partition
  rw [RangeRead.mem_select, List.mem_filter, decide_eq_true_eq, and_assoc]
  rfl

theorem ascending_rest : (rest p m device start stop after).Pairwise fun i j => i.key.sort < j.key.sort :=
  RangeRead.pairwise_select m.ascending_items _

theorem shown_append_later :
    shown p m device start stop after ++ later p m device start stop after = rest p m device start stop after :=
  List.take_append_drop _ _

theorem mem_rest_of_mem_shown {i : Item} (h : i ∈ shown p m device start stop after) :
    i ∈ rest p m device start stop after := List.mem_of_mem_take h

theorem mem_rest_of_mem_later {i : Item} (h : i ∈ later p m device start stop after) :
    i ∈ rest p m device start stop after := List.mem_of_mem_drop h

theorem length_shown_le : (shown p m device start stop after).length ≤ pageLength p m :=
  List.length_take_le _ _

/-! ## One page -/

theorem page_query : m.page (query p device start stop after) =
    ⟨shown p m device start stop after,
      if (shown p m device start stop after).length = pageLength p m
      then (shown p m device start stop after).getLast?.map (·.key) else none⟩ := by
  unfold Memory.page
  rw [pageLimit_query]
  rfl

theorem page_query_congr (hd : Serving m desk) : desk.store.page (query p device start stop after) =
    m.page (query p device start stop after) := by
  unfold Memory.page Memory.pageLimit Memory.matching
  rw [hd.pageSize_eq, Memory.items_congr hd.rows_eq]

/-- The page that a call answers. -/
def pageAfter (p : Paging) (m : Memory) (device : String) (start stop : Int) (after : Option Key) :
    FragmentPage :=
  ⟨Memory.decoded (Fragment.ofItem device) (shown p m device start stop after),
    (m.page (query p device start stop after)).next.map Token.encode⟩

/-- A call shows the first of the records that are left. -/
theorem call_eq (hL : Listable m device start stop) (hd : Serving m desk)
    (ht : token.mapM (Token.decode (Fragment.partition device)) = .ok after) (number : Nat) :
    ∃ desk', Serving m desk' ∧
      call p device start stop number token desk = (.ok (pageAfter p m device start stop after), desk') := by
  refine ⟨⟨{ desk.store with reads := desk.store.reads + 1 }, desk.clock⟩,
    ⟨hd.rows_eq, hd.pageSize_eq, hd.readable⟩, ?_⟩
  have hshown : (m.page (query p device start stop after)).items.mapM (Fragment.ofItem device) =
      .ok (Memory.decoded (Fragment.ofItem device) (shown p m device start stop after)) := by
    rw [page_query]
    exact Memory.mapM_eq_decoded fun i hi => hL.readable i (mem_rest.1 (mem_rest_of_mem_shown hi)).1
  unfold call list
  rw [if_pos hL.le, ht]
  simp only [Task.bind_apply, Desk.check, Task.pure_apply, Desk.onStore, Memory.read_eq hd.readable,
    page_query_congr hd, hshown]
  rfl

theorem of_call_eq_ok (hL : Listable m device start stop) (hd : Serving m desk)
    (ht : token.mapM (Token.decode (Fragment.partition device)) = .ok after) {number : Nat}
    {pg : FragmentPage} {desk' : Desk Memory}
    (h : call p device start stop number token desk = (.ok pg, desk')) :
    Serving m desk' ∧ pg = pageAfter p m device start stop after := by
  obtain ⟨_, hd', hcall⟩ := call_eq (p := p) hL hd ht number
  obtain ⟨hpg, rfl⟩ := Prod.mk.inj (h.symm.trans hcall)
  exact ⟨hd', Except.ok.inj hpg⟩

/-- The page after a key names the key `k` to resume after: it is full, and `k` is that of its last
item. -/
structure Continues (p : Paging) (m : Memory) (device : String) (start stop : Int) (after : Option Key)
    (k : Key) : Prop where
  resumes : (some (Token.encode k)).mapM (Token.decode (Fragment.partition device)) = .ok (some k)
  length_le : pageLength p m ≤ (rest p m device start stop after).length
  shown_last : ∃ i ∈ shown p m device start stop after, i.key = k
  shown_le : ∀ i ∈ shown p m device start stop after, i.key.sort ≤ k.sort
  lt_later : ∀ i ∈ later p m device start stop after, k.sort < i.key.sort
  rest_eq : k.sort < Stamp.greatest →
    rest p m device start stop (some k) = later p m device start stop after

theorem continues_of_next (hL : Listable m device start stop)
    (hk : k ∈ (m.page (query p device start stop after)).next) :
    Continues p m device start stop after k := by
  obtain ⟨left, hA⟩ := m.answers_page (query p device start stop after)
  have hle : start ≤ k.sort := Int.le_trans (RangeRead.lower_le_least _) (m.covers_of_mem_next hk).2.1
  have hpart : k.partition = Fragment.partition device := hA.partition_eq k hk
  obtain rfl : left = later p m device start stop after := by
    have hsel := hA.select_eq
    rw [page_query] at hsel
    exact (List.append_cancel_left (shown_append_later.trans hsel)).symm
  have hrest : k.sort < Stamp.greatest → _ := hA.select_resumed_of_lt hk
  have hshown := hA.le_next k hk
  have hlater := hA.next_lt k hk
  have hku : k.sort ≤ stop := hA.le_upper k hk
  have hleast := hL.least_le
  have hgreatest := hL.le_greatest
  rw [page_query] at hk hshown
  by_cases hfull : (shown p m device start stop after).length = pageLength p m
  · simp only [if_pos hfull] at hk
    obtain ⟨i, hi, hik⟩ := Option.map_eq_some_iff.1 hk
    refine ⟨?_, ?_, ⟨i, List.mem_of_getLast? hi, hik⟩, hshown, hlater, hrest⟩
    · rw [Option.mapM_some, ← hpart, Token.decode_encode ⟨by omega, by omega⟩]
      rfl
    · rw [shown, List.length_take] at hfull
      omega
  · simp only [if_neg hfull] at hk
    exact absurd hk (by simp)

/-- Without a token everything has been shown. -/
theorem shown_of_next_eq_none (h : (m.page (query p device start stop after)).next = none) :
    shown p m device start stop after = rest p m device start stop after := by
  obtain ⟨left, hA⟩ := m.answers_page (query p device start stop after)
  have hsel := hA.select_eq
  rw [hA.complete h, List.append_nil, page_query] at hsel
  exact hsel.symm

/-- A full page has a token, also if nothing follows it. -/
theorem next_ne_none (h : pageLength p m ≤ (rest p m device start stop after).length) :
    (m.page (query p device start stop after)).next ≠ none := by
  have hpos := pageLength_pos p m
  have hfull : (shown p m device start stop after).length = pageLength p m := by
    rw [shown, List.length_take]
    omega
  rw [page_query]
  simp only [if_pos hfull, ne_eq, Option.map_eq_none_iff, List.getLast?_eq_none_iff]
  intro hnil
  rw [hnil, List.length_nil] at hfull
  omega

/-! ## The record at the greatest number -/

/-- Pages of `n` records come to the end of these items with a full page, of which the last record is at
the greatest stored number. -/
def Stuck (n : Nat) (left : List Item) : Prop :=
  n ∣ left.length ∧ ∃ i ∈ left, i.key.sort = Stamp.greatest

theorem Stuck.length_le (h : Stuck n left) : n ≤ left.length := by
  obtain ⟨hd, i, hi, -⟩ := h
  exact Nat.le_of_dvd (List.length_pos_of_mem hi) hd

theorem stuck_of_later (hle : pageLength p m ≤ (rest p m device start stop after).length)
    (h : Stuck (pageLength p m) (later p m device start stop after)) :
    Stuck (pageLength p m) (rest p m device start stop after) := by
  obtain ⟨hd, i, hi, hs⟩ := h
  rw [later, List.length_drop] at hd
  exact ⟨(Nat.dvd_sub_iff_left hle (Nat.dvd_refl _)).1 hd, i, mem_rest_of_mem_later hi, hs⟩

namespace Continues

/-- A page that does not reach the greatest number leaves it to later pages. -/
theorem stuck_later (hc : Continues p m device start stop after k) (hlt : k.sort < Stamp.greatest)
    (h : Stuck (pageLength p m) (rest p m device start stop after)) :
    Stuck (pageLength p m) (later p m device start stop after) := by
  obtain ⟨hd, i, hi, hs⟩ := h
  rw [← shown_append_later, List.mem_append] at hi
  refine ⟨?_, i, hi.resolve_left fun hi => ?_, hs⟩
  · rw [later, List.length_drop]
    exact Nat.dvd_sub hd (Nat.dvd_refl _)
  · have := hc.shown_le i hi
    omega

/-- A page that ends at the greatest number leaves nothing. -/
theorem stuck (hc : Continues p m device start stop after k) (hL : Listable m device start stop)
    (hge : Stamp.greatest ≤ k.sort) : Stuck (pageLength p m) (rest p m device start stop after) := by
  obtain ⟨i, hi, rfl⟩ := hc.shown_last
  have hgreatest := hL.le_greatest
  have hle := (mem_rest.1 (mem_rest_of_mem_shown hi)).2.2
  have hlater : later p m device start stop after = [] := by
    refine List.eq_nil_iff_forall_not_mem.2 fun j hj => ?_
    have := hc.lt_later j hj
    have := (mem_rest.1 (mem_rest_of_mem_later hj)).2.2
    omega
  have hshort := List.drop_eq_nil_iff.1 hlater
  have hlong := hc.length_le
  exact ⟨⟨1, by omega⟩, i, mem_rest_of_mem_shown hi, by omega⟩

/-- A token of the greatest number resumes with the record that it names. -/
theorem again (hc : Continues p m device start stop after k) (hge : Stamp.greatest ≤ k.sort) :
    ∃ i ∈ shown p m device start stop after, i.key = k ∧ i ∈ rest p m device start stop (some k) := by
  obtain ⟨i, hi, rfl⟩ := hc.shown_last
  obtain ⟨hpart, hs, hu⟩ := mem_rest.1 (mem_rest_of_mem_shown hi)
  have hstart : start ≤ i.key.sort :=
    Int.le_trans (RangeRead.lower_le_least (query p device start stop after)) hs
  have hleast : max start (min (i.key.sort + 1) Stamp.greatest) ≤ i.key.sort := by omega
  exact ⟨i, hi, rfl, mem_rest.2 ⟨hpart, hleast, hu⟩⟩

end Continues

/-! ## All pages -/

/-- Each call shows something of what is left, so the listing ends. -/
theorem exists_follows (hL : Listable m device start stop) (hd : Serving m desk)
    (ht : token.mapM (Token.decode (Fragment.partition device)) = .ok after) (number : Nat)
    (hns : ¬ Stuck (pageLength p m) (rest p m device start stop after)) :
    ∃ pages, Follows (call p device start stop) (·.token) number token desk pages ∧
      (∀ pg ∈ pages, pg.records.length ≤ pageLength p m) ∧
      pages.flatMap (·.records) =
        Memory.decoded (Fragment.ofItem device) (rest p m device start stop after) := by
  induction hlen : (rest p m device start stop after).length using Nat.strongRecOn
    generalizing token desk after number with
  | ind len ih =>
    obtain ⟨desk', hd', hcall⟩ := call_eq (p := p) hL hd ht number
    have hshort : (pageAfter p m device start stop after).records.length ≤ pageLength p m :=
      Nat.le_trans (List.length_filterMap_le _ _) length_shown_le
    cases hnext : (m.page (query p device start stop after)).next with
    | none =>
      refine ⟨_, .last hcall (by rw [pageAfter, hnext]; rfl), ?_, ?_⟩
      · intro pg hpg
        rw [List.mem_singleton.1 hpg]
        exact hshort
      · rw [List.flatMap_cons, List.flatMap_nil, List.append_nil, ← shown_of_next_eq_none hnext]
        rfl
    | some k =>
      have hc : Continues p m device start stop after k := continues_of_next hL hnext
      by_cases hlt : k.sort < Stamp.greatest
      · have hrest := hc.rest_eq hlt
        have hless : (rest p m device start stop (some k)).length < len := by
          have := pageLength_pos p m
          have := hc.length_le
          rw [hrest, later, List.length_drop]
          omega
        obtain ⟨pages, hpages, hall, hrecords⟩ := ih _ hless hd' hc.resumes (number + 1)
          (fun hs => hns (stuck_of_later hc.length_le (hrest ▸ hs))) rfl
        refine ⟨_, .more hcall (by rw [pageAfter, hnext]; rfl) hpages, ?_, ?_⟩
        · intro pg hpg
          rcases List.mem_cons.1 hpg with rfl | hpg
          · exact hshort
          · exact hall pg hpg
        · rw [List.flatMap_cons, hrecords, hrest, ← shown_append_later]
          exact List.filterMap_append.symm
      · exact absurd (hc.stuck hL (Int.not_lt.1 hlt)) hns

theorem timestamp_of_ofItem (i : Item) (f : Fragment) (h : Fragment.ofItem device i = .ok f) :
    f.timestamp = i.key.sort := (Fragment.parts_of_ofItem h).2.1

/-- A page shows something if anything is left. -/
theorem exists_shown (hL : Listable m device start stop) (hd : Serving m desk)
    (ht : token.mapM (Token.decode (Fragment.partition device)) = .ok after) {number : Nat}
    {pages : List FragmentPage}
    (hpages : Follows (call p device start stop) (·.token) number token desk pages)
    (hne : rest p m device start stop after ≠ []) :
    ∃ f ∈ pages.flatMap (·.records), f.timestamp ≤ stop := by
  obtain ⟨a, desk', pages', ha, rfl⟩ := hpages.exists_first
  obtain ⟨-, rfl⟩ := of_call_eq_ok hL hd ht ha
  obtain ⟨i, is, hrest⟩ := List.exists_cons_of_ne_nil hne
  obtain ⟨n, hn⟩ := Nat.exists_eq_add_of_lt (pageLength_pos p m)
  have hi : i ∈ shown p m device start stop after := by
    rw [shown, hrest, hn, Nat.zero_add, List.take_succ_cons]
    exact List.mem_cons_self
  obtain ⟨hpart, -, hstop⟩ := mem_rest.1 (mem_rest_of_mem_shown hi)
  obtain ⟨f, hf⟩ := hL.readable i hpart
  refine ⟨f, List.mem_flatMap.2 ⟨_, List.mem_cons_self, Memory.mem_decoded.2 ⟨i, hi, hf⟩⟩, ?_⟩
  rw [timestamp_of_ofItem i f hf]
  exact hstop

/-- The record at the greatest number comes twice if it is the last one of a full page. -/
theorem not_ascending_of_stuck (hL : Listable m device start stop) (hd : Serving m desk)
    (ht : token.mapM (Token.decode (Fragment.partition device)) = .ok after) {number : Nat}
    {pages : List FragmentPage}
    (hpages : Follows (call p device start stop) (·.token) number token desk pages)
    (hs : Stuck (pageLength p m) (rest p m device start stop after)) :
    ¬ (pages.flatMap (·.records)).Pairwise fun f g => f.timestamp < g.timestamp := by
  induction hpages generalizing after with
  | last h hend =>
    obtain ⟨-, rfl⟩ := of_call_eq_ok hL hd ht h
    exact absurd (Option.map_eq_none_iff.1 hend) (next_ne_none hs.length_le)
  | more h htoken hpages ih =>
    obtain ⟨hd', rfl⟩ := of_call_eq_ok hL hd ht h
    obtain ⟨k, hk, rfl⟩ := Option.map_eq_some_iff.1 htoken
    have hc : Continues p m device start stop after k := continues_of_next hL hk
    intro hasc
    rw [List.flatMap_cons, List.pairwise_append] at hasc
    by_cases hlt : k.sort < Stamp.greatest
    · refine ih hd' hc.resumes ?_ hasc.2.1
      rw [hc.rest_eq hlt]
      exact hc.stuck_later hlt hs
    · -- the record that the token names is on this page and on the next one
      obtain ⟨i, hi, rfl, hagain⟩ := hc.again (Int.not_lt.1 hlt)
      obtain ⟨g, hg, hgs⟩ := exists_shown hL hd' hc.resumes hpages (List.ne_nil_of_mem hagain)
      obtain ⟨f, hf⟩ := hL.readable i (mem_rest.1 hagain).1
      have hfg := hasc.2.2 f (Memory.mem_decoded.2 ⟨i, hi, hf⟩) g hg
      have hgreatest := hL.le_greatest
      rw [timestamp_of_ofItem i f hf] at hfg
      omega

/-- With one record on a page the listing does not even end. -/
theorem not_follows_of_stuck (hL : Listable m device start stop) (hd : Serving m desk)
    (ht : token.mapM (Token.decode (Fragment.partition device)) = .ok after) {number : Nat}
    {pages : List FragmentPage} (hone : pageLength p m = 1)
    (hs : Stuck (pageLength p m) (rest p m device start stop after)) :
    ¬ Follows (call p device start stop) (·.token) number token desk pages := by
  intro hpages
  induction hpages generalizing after with
  | last h hend =>
    obtain ⟨-, rfl⟩ := of_call_eq_ok hL hd ht h
    exact absurd (Option.map_eq_none_iff.1 hend) (next_ne_none hs.length_le)
  | more h htoken _ ih =>
    obtain ⟨hd', rfl⟩ := of_call_eq_ok hL hd ht h
    obtain ⟨k, hk, rfl⟩ := Option.map_eq_some_iff.1 htoken
    have hc : Continues p m device start stop after k := continues_of_next hL hk
    refine ih hd' hc.resumes ?_
    by_cases hlt : k.sort < Stamp.greatest
    · rw [hc.rest_eq hlt]
      exact hc.stuck_later hlt hs
    · obtain ⟨i, -, rfl, hagain⟩ := hc.again (Int.not_lt.1 hlt)
      have hgreatest := hL.le_greatest
      have hle := (mem_rest.1 hagain).2.2
      refine ⟨?_, i, hagain, by omega⟩
      rw [hone]
      exact Nat.one_dvd _

/-! ## Listings of histories -/

/-- Whatever has arrived, the items of a device can be read. -/
theorem readable_of (p : Paging) (arrivals : List Arrival) (device : String) :
    ∀ i ∈ (History.of p arrivals).store.partition (Fragment.partition device),
      ∃ f, Fragment.ofItem device i = .ok f := by
  intro i hi
  obtain ⟨him, hp⟩ := List.mem_filter.1 hi
  obtain ⟨old, hold, -⟩ := reported_of p arrivals device i.key.sort
  have hk : (⟨Fragment.partition device, i.key.sort⟩ : Key) = i.key := by
    rw [← of_decide_eq_true hp]
  have hfind := Memory.mem_items.1 him
  cases old with
  | none =>
    have hnone := Memory.find?_of_entry_eq_none hold
    rw [hk, hfind] at hnone
    exact absurd hnone (by simp)
  | some f =>
    obtain ⟨j, hj, hf⟩ := Memory.find?_of_entry_eq_some hold
    rw [hk, hfind] at hj
    exact ⟨f, Option.some.inj hj ▸ hf⟩

theorem load_eq_ok_iff (hget : desk.store.faults.get = false) {timestamp : Int} {f : Fragment} :
    load Memory.backend device timestamp desk = (.ok (some f), desk) ↔
      desk.store.record device timestamp = .ok (some f) := by
  constructor
  · intro h
    rw [load_eq, hget] at h
    obtain ⟨hload, -⟩ := Prod.mk.inj h
    cases hr : desk.store.record device timestamp with
    | error e =>
      rw [hr] at hload
      exact absurd hload (by simp)
    | ok old =>
      rw [hr] at hload
      exact congrArg Except.ok (Except.ok.inj hload)
  · exact load_eq_ok hget

theorem mem_decoded_rest {f : Fragment} :
    f ∈ Memory.decoded (Fragment.ofItem device) (rest p m device start stop none) ↔
      start ≤ f.timestamp ∧ f.timestamp ≤ stop ∧ m.record device f.timestamp = .ok (some f) := by
  unfold Memory.record
  rw [← Memory.mem_decoded_partition timestamp_of_ofItem, Memory.mem_decoded, Memory.mem_decoded]
  constructor
  · rintro ⟨i, hi, hf⟩
    obtain ⟨hpart, hs, hu⟩ := mem_rest.1 hi
    rw [timestamp_of_ofItem i f hf]
    exact ⟨hs, hu, i, hpart, hf⟩
  · rintro ⟨hs, hu, i, hpart, hf⟩
    rw [timestamp_of_ofItem i f hf] at hs hu
    exact ⟨i, mem_rest.2 ⟨hpart, hs, hu⟩, hf⟩

theorem rest_none : rest p m device start stop none =
    (m.partition (Fragment.partition device)).filter fun i => start ≤ i.key.sort ∧ i.key.sort ≤ stop := by
  unfold rest RangeRead.select Memory.partition
  rw [List.filter_filter]
  refine List.filter_congr fun i _ => ?_
  rw [← Bool.decide_and]
  exact decide_eq_decide.2 ⟨fun ⟨hp, hs⟩ => ⟨hs, hp⟩, fun ⟨hs, hp⟩ => ⟨hp, hs⟩⟩

/-- The last record is at the greatest number: the range reaches it, and there is one. -/
theorem exists_greatest_iff (hL : Listable m device start stop) :
    (∃ i ∈ rest p m device start stop none, i.key.sort = Stamp.greatest) ↔
      stop = Stamp.greatest ∧ ∃ f, m.record device Stamp.greatest = .ok (some f) := by
  constructor
  · rintro ⟨i, hi, hs⟩
    obtain ⟨hpart, -, hu⟩ := mem_rest.1 hi
    obtain ⟨f, hf⟩ := hL.readable i hpart
    have hgreatest := hL.le_greatest
    obtain ⟨-, -, hrecord⟩ := mem_decoded_rest.1 (Memory.mem_decoded.2 ⟨i, hi, hf⟩)
    rw [timestamp_of_ofItem i f hf, hs] at hrecord
    exact ⟨by omega, f, hrecord⟩
  · rintro ⟨rfl, f, hf⟩
    obtain ⟨i, hi, ho⟩ := Memory.find?_of_entry_eq_some hf
    have hk := Memory.key_of_find? hi
    have hs : f.timestamp = Stamp.greatest := by
      rw [timestamp_of_ofItem i f ho, hk]
    obtain ⟨j, hj, ho'⟩ := Memory.mem_decoded.1 (mem_decoded_rest.2
      ⟨hs ▸ hL.le, Int.le_of_eq hs, (hs.symm ▸ hf : m.record device f.timestamp = .ok (some f))⟩)
    exact ⟨j, hj, (timestamp_of_ofItem j f ho').symm.trans hs⟩

/-- **When a listing of fragments is exact.** It shows each record of its range once, unless a full page ends
with a record at the greatest stored number: the position after that has no name. -/
theorem listing_exact_iff (p p' : Paging) (arrivals : List Arrival) (device : String) (start stop : Int)
    (hstart : Stamp.Fits start) (hstop : Stamp.Fits stop) (hle : start ≤ stop) (desk : Desk Memory)
    (hrows : desk.store.rows = (History.of p' arrivals).store.rows) (hread : desk.store.Readable)
    (hget : desk.store.faults.get = false) :
    (∃ pages, Follows (call p device start stop) (·.token) 0 none desk pages ∧
      (∀ pg ∈ pages, pg.records.length ≤ p.fragmentLimit) ∧
      let records := pages.flatMap (·.records)
      records.Pairwise (fun f g => f.timestamp < g.timestamp) ∧
      ∀ f, f ∈ records ↔ start ≤ f.timestamp ∧ f.timestamp ≤ stop ∧
        load Memory.backend device f.timestamp desk = (.ok (some f), desk)) ↔
    ¬ (stop = Stamp.greatest ∧
      (∃ f, load Memory.backend device Stamp.greatest desk = (.ok (some f), desk)) ∧
      pageLength p desk.store ∣ ((desk.store.partition (Fragment.partition device)).filter fun i =>
        start ≤ i.key.sort ∧ i.key.sort ≤ stop).length) := by
  have hd : Serving desk.store desk := ⟨rfl, rfl, hread⟩
  have hL : Listable desk.store device start stop := by
    refine ⟨hle, hstart.1, hstop.2, fun i hi => ?_⟩
    unfold Memory.partition at hi
    rw [Memory.items_congr hrows] at hi
    exact readable_of p' arrivals device i hi
  have htoken : (none : Option String).mapM (Token.decode (Fragment.partition device)) = .ok none := rfl
  have hstuck : Stuck (pageLength p desk.store) (rest p desk.store device start stop none) ↔
      stop = Stamp.greatest ∧
      (∃ f, load Memory.backend device Stamp.greatest desk = (.ok (some f), desk)) ∧
      pageLength p desk.store ∣ ((desk.store.partition (Fragment.partition device)).filter fun i =>
        start ≤ i.key.sort ∧ i.key.sort ≤ stop).length := by
    unfold Stuck
    rw [exists_greatest_iff hL, rest_none]
    simp only [load_eq_ok_iff hget]
    constructor
    · rintro ⟨hdvd, hs, hf⟩
      exact ⟨hs, hf, hdvd⟩
    · rintro ⟨hs, hf, hdvd⟩
      exact ⟨hdvd, hs, hf⟩
  rw [← hstuck]
  constructor
  · rintro ⟨pages, hpages, -, hasc, -⟩ hs
    exact not_ascending_of_stuck hL hd htoken hpages hs hasc
  · intro hns
    obtain ⟨pages, hpages, hshort, hrecords⟩ := exists_follows hL hd htoken 0 hns
    refine ⟨pages, hpages, fun pg hpg => Nat.le_trans (hshort pg hpg) (pageLength_le p _), ?_⟩
    intro records
    rw [show records = _ from hrecords]
    refine ⟨Memory.pairwise_decoded timestamp_of_ofItem ascending_rest, fun f => ?_⟩
    rw [mem_decoded_rest, load_eq_ok_iff hget]

/-- Three records up to the greatest number, two on a page. -/
theorem listing_exact_iff_three :
    let arrivals : List Arrival := [⟨"d", Stamp.greatest, 300, .device, ⟨7, 0⟩, {}⟩,
      ⟨"d", -5, 400, .cloud, ⟨8, 0⟩, {}⟩, ⟨"d", 6, 500, .device, ⟨9, 0⟩, {}⟩]
    let desk : Desk Memory := ⟨(History.of {} arrivals).store, ⟨0, 0⟩⟩
    ∃ pages, Follows (call { fragmentsPerPage := 2 } "d" Stamp.least Stamp.greatest) (·.token) 0 none desk
        pages ∧
      (pages.flatMap (·.records)).Pairwise (fun f g => f.timestamp < g.timestamp) ∧
      ∃ f ∈ pages.flatMap (·.records), f.timestamp = Stamp.greatest ∧ f.duration = 300 := by
  intro arrivals desk
  have hread : desk.store.Readable := by
    unfold Memory.Readable
    decide +kernel
  have hget : desk.store.faults.get = false := by decide +kernel
  obtain ⟨pages, hpages, -, hasc, hmem⟩ := (listing_exact_iff { fragmentsPerPage := 2 } {} arrivals "d"
    Stamp.least Stamp.greatest (by decide) (by decide) (by decide) desk rfl hread hget).2 fun h =>
      absurd h.2.2 (by decide +kernel)
  let f : Fragment :=
    ⟨"d", Stamp.greatest, 300, .device, 7, 7, Fragment.expiry Stamp.greatest 90⟩
  have hload : load Memory.backend "d" Stamp.greatest desk = (.ok (some f), desk) :=
    load_eq_ok hget (eq_ok_of_toOption (by decide +kernel))
  exact ⟨pages, hpages, hasc, f, (hmem f).2 ⟨by decide, by decide, hload⟩, rfl, rfl⟩

/-- One record at the greatest number, one on a page: there is no last page. -/
theorem listing_endless :
    let arrivals : List Arrival := [⟨"d", Stamp.greatest, 300, .device, ⟨7, 0⟩, {}⟩]
    let desk : Desk Memory := ⟨(History.of {} arrivals).store, ⟨0, 0⟩⟩
    ¬ ∃ pages, Follows (call { fragmentsPerPage := 1 } "d" 0 Stamp.greatest) (·.token) 0 none desk pages := by
  rintro arrivals desk ⟨pages, hpages⟩
  have hread : desk.store.Readable := by
    unfold Memory.Readable
    decide +kernel
  have hd : Serving desk.store desk := ⟨rfl, rfl, hread⟩
  have hL : Listable desk.store "d" 0 Stamp.greatest :=
    ⟨by decide, by decide, by decide, readable_of {} arrivals "d"⟩
  have hone : pageLength { fragmentsPerPage := 1 } desk.store = 1 := by decide +kernel
  have hs : Stuck (pageLength { fragmentsPerPage := 1 } desk.store)
      (rest { fragmentsPerPage := 1 } desk.store "d" 0 Stamp.greatest none) := by
    unfold Stuck
    decide +kernel
  have htoken : (none : Option String).mapM (Token.decode (Fragment.partition "d")) = .ok none := rfl
  exact not_follows_of_stuck hL hd htoken hone hs hpages

end Footage.Archive
