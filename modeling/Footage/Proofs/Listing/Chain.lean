import Mathlib.Algebra.BigOperators.Group.List.Basic
import Footage.Proofs.Listing.Limits
import Footage.Proofs.Listing.Sound
import Footage.Proofs.Token

/-!
# All pages of a listing

A `Chain` is what a caller gets who asks for one page after the other. Every page ends at a boundary
at which its token resumes, so the pages of a chain join up to one stretch of periods (`Lists`), and
since every page has a period the chain comes to its end. In a range that is wider than the greatest
stored number a token may be refused; then the chain ends there.
-/

namespace Footage.Listing

open Footage.Task

variable {σ : Type} {b : Backend σ} {I : σ → Prop} {E : StoreError → Prop} {items : List Item}
  {r : Request} {p : Paging} {after : Option Key} {first stop : Int}

/-- The pages from a token on, each asked for with the token of the one before it, up to the last one
or to a failure. -/
inductive Chain (b : Backend σ) (p : Paging) (r : Request) :
    Option String → Desk σ → List PeriodPage → Option Failure → Prop
  | failed {token desk f desk'} (h : page b p { r with token } desk = (.error f, desk')) :
      Chain b p r token desk [] (some f)
  | last {token desk pg desk'} (h : page b p { r with token } desk = (.ok pg, desk'))
      (hend : pg.token = none) : Chain b p r token desk [pg] none
  | more {token desk pg desk' t pages failure} (h : page b p { r with token } desk = (.ok pg, desk'))
      (ht : pg.token = some t) (rest : Chain b p r (some t) desk' pages failure) :
      Chain b p r token desk (pg :: pages) failure

/-- There is only one chain. -/
theorem Chain.unique {token : Option String} {desk : Desk σ} {pages pages' : List PeriodPage}
    {failure failure' : Option Failure} (h : Chain b p r token desk pages failure)
    (h' : Chain b p r token desk pages' failure') : pages' = pages ∧ failure' = failure := by
  induction h generalizing pages' failure' with
  | failed h =>
    cases h' with
    | failed h' =>
      rw [h] at h'
      obtain rfl := Except.error.inj (Prod.mk.inj h').1
      exact ⟨rfl, rfl⟩
    | last h' | more h' =>
      rw [h] at h'
      exact absurd (Prod.mk.inj h').1 (by simp)
  | last h hend =>
    cases h' with
    | failed h' =>
      rw [h] at h'
      exact absurd (Prod.mk.inj h').1 (by simp)
    | last h' =>
      rw [h] at h'
      obtain rfl := Except.ok.inj (Prod.mk.inj h').1
      exact ⟨rfl, rfl⟩
    | more h' ht =>
      rw [h] at h'
      obtain rfl := Except.ok.inj (Prod.mk.inj h').1
      exact absurd (hend.symm.trans ht) (by simp)
  | more h ht rest ih =>
    cases h' with
    | failed h' =>
      rw [h] at h'
      exact absurd (Prod.mk.inj h').1 (by simp)
    | last h' hend =>
      rw [h] at h'
      obtain rfl := Except.ok.inj (Prod.mk.inj h').1
      exact absurd (hend.symm.trans ht) (by simp)
    | more h' ht' rest' =>
      rw [h] at h'
      obtain ⟨hpg, rfl⟩ := Prod.mk.inj h'
      obtain rfl := Except.ok.inj hpg
      obtain rfl := Option.some.inj (ht.symm.trans ht')
      obtain ⟨rfl, rfl⟩ := ih rest'
      exact ⟨rfl, rfl⟩

/-- In a chain without a failing call the last page is the one that has no token. -/
theorem Chain.exists_last {token : Option String} {desk : Desk σ} {pages : List PeriodPage}
    {failure : Option Failure} (h : Chain b p r token desk pages failure) (hf : failure = none) :
    ∃ init last, pages = init ++ [last] ∧ last.token = none ∧ ∀ pg ∈ init, pg.token ≠ none := by
  induction h with
  | failed h => exact absurd hf (by simp)
  | @last _ _ pg _ h hend => exact ⟨[], pg, rfl, hend, fun _ hpg => absurd hpg List.not_mem_nil⟩
  | @more _ _ pg _ t _ _ h ht rest ih =>
    obtain ⟨init, last, rfl, hlast, hinit⟩ := ih hf
    refine ⟨pg :: init, last, rfl, hlast, fun pg' hpg => ?_⟩
    rcases List.mem_cons.1 hpg with rfl | hpg
    · rw [ht]
      exact Option.some_ne_none t
    · exact hinit pg' hpg

/-- Limits of nothing make the chain that limits of one make. -/
theorem Chain.positive {token : Option String} {desk : Desk Memory} {pages : List PeriodPage}
    {failure : Option Failure} (h : Chain Memory.backend p r token desk pages failure) :
    Chain Memory.backend p.positive r token (desk.change Memory.positive) pages failure := by
  induction h with
  | failed h => exact .failed (by rw [page_positive, h])
  | last h hend => exact .last (by rw [page_positive, h]) hend
  | more h ht _ ih => exact .more (by rw [page_positive, h]) ht ih

/-- The token of a page is decoded to its key. -/
theorem Resumes.decode_encode (hr : r.Bounded) {k : Key} (hR : Resumes r stop (some k)) :
    Token.decode r.partition (Token.encode k) = .ok k := by
  obtain ⟨hp, hs, hks, -⟩ := hR
  have hle := hr.le_greatest
  have hleast := hr.least_le
  rw [← hp]
  exact Token.decode_encode ⟨by omega, by omega⟩

/-- The boundary at which a page resumes is found, if it is no further from the start than the greatest
stored number. -/
theorem Resumes.boundary (hr : r.Bounded) {k : Key} (hR : Resumes r stop (some k)) (hlt : stop < r.stop)
    (hnear : stop - r.start ≤ Stamp.greatest) :
    boundaryAfter? r.start r.increment k.sort = some stop := by
  obtain ⟨-, hs, hks, hstop⟩ := hR
  have hi := hr.increment_pos
  have hle := hr.le_greatest
  have hleast := hr.least_le
  have hk : k.sort < nextBoundary r.start r.increment k.sort := lt_nextBoundary hi
  rw [boundaryAfter?_of_fits hi hs (by omega) ⟨by omega, by omega⟩, hstop]

/-- The token of a page resumes where the page stopped, if that is no further from the start than the
greatest stored number. Otherwise it is refused. -/
theorem resume_encode (hr : r.Bounded) {k : Key} (hR : Resumes r stop (some k)) (hlt : stop < r.stop) :
    ({ r with token := some (Token.encode k) } : Request).resume =
      if stop - r.start ≤ Stamp.greatest then .ok (some k, stop) else .error (.lastPeriod k.sort) := by
  have hdecode := hR.decode_encode hr
  have hboundary := hR.boundary hr hlt
  obtain ⟨-, hs, hks, hstop⟩ := hR
  have hresume : ({ r with token := some (Token.encode k) } : Request).resume =
      (r.resumeAt k.sort).map (some k, ·) := by
    show (Token.decode r.partition (Token.encode k) >>= fun key =>
      r.resumeAt key.sort >>= fun boundary => pure (some key, boundary)) = _
    rw [hdecode]
    cases h : r.resumeAt k.sort <;> simp [bind, Except.bind, Except.map, h, pure, Except.pure]
  rw [hresume]
  unfold Request.resumeAt
  rw [if_neg (by omega)]
  by_cases hnear : stop - r.start ≤ Stamp.greatest
  · rw [if_pos hnear, hboundary hnear]
    rfl
  · rw [if_neg hnear]
    cases hb : boundaryAfter? r.start r.increment k.sort with
    | none => rfl
    | some u =>
      obtain ⟨-, hu, -⟩ := boundaryAfter?_eq_some hb
      have := boundaryAfter?_sub_le hb
      omega

/-- Only in a range that is wider than the greatest stored number the token of a page may be refused. -/
theorem resume_token (hr : r.Bounded) {k : Key} (hR : Resumes r stop (some k)) (hlt : stop < r.stop) :
    ({ r with token := some (Token.encode k) } : Request).resume = .ok (some k, stop) ∨
      Stamp.greatest < r.stop - r.start ∧
        ∃ e, ({ r with token := some (Token.encode k) } : Request).resume = .error e := by
  rw [resume_encode hr hR hlt]
  by_cases hnear : stop - r.start ≤ Stamp.greatest
  · exact .inl (if_pos hnear)
  · exact .inr ⟨by omega, _, if_neg hnear⟩

theorem page_of_resume_eq_error {e : TokenError} (hcheck : r.check = .ok ())
    {token : Option String} (h : ({ r with token } : Request).resume = .error e) (desk : Desk σ) :
    page b p { r with token } desk = (.error (.token e), desk) := by
  unfold page pageBy
  rw [show ({ r with token } : Request).check = .ok () from hcheck, h]
  rfl

/-- What pages show from `first` on: each of them something, and together all periods unless there
was a failure. -/
structure Lists (r : Request) (items : List Item) (first : Int) (pages : List PeriodPage)
    (failure : Option Failure) : Prop where
  ne_nil : ∀ pg ∈ pages, pg.results ≠ []
  results_eq : failure = none → pages.flatMap (·.results) =
    (Period.starts r.increment first r.stop).map (Period.holding r.increment (listed r items))

/-- There are no more pages than periods. -/
theorem Lists.length_le {pages : List PeriodPage} (h : Lists r items first pages none) :
    pages.length ≤ (Period.starts r.increment first r.stop).length := by
  have hlength : ∀ pages : List PeriodPage, (∀ pg ∈ pages, pg.results ≠ []) →
      pages.length ≤ (pages.flatMap (·.results)).length := by
    intro pages hne
    induction pages with
    | nil => exact Nat.le_refl _
    | cons pg pages ih =>
      have := List.length_pos_iff.2 (hne pg List.mem_cons_self)
      have := ih fun pg' hpg => hne pg' (List.mem_cons_of_mem _ hpg)
      rw [List.flatMap_cons, List.length_append, List.length_cons]
      omega
  have := hlength pages h.ne_nil
  rwa [h.results_eq rfl, List.length_map] at this

theorem Shows.ne_nil {pg : PeriodPage} (hi : 0 < r.increment)
    (h : Shows r p items after first stop pg) (hclear : Clear r p items first after) :
    pg.results ≠ [] := by
  rw [h.results_eq, Period.starts_of_lt hi (h.advances hclear)]
  simp

/-- A page and those after it. -/
theorem Shows.lists_cons {pg : PeriodPage} {pages : List PeriodPage} {failure : Option Failure}
    (hi : 0 < r.increment) (h : Shows r p items after first stop pg)
    (hclear : Clear r p items first after) (hd : r.increment ∣ stop - first)
    (hrest : Lists r items stop pages failure) : Lists r items first (pg :: pages) failure where
  ne_nil := by
    intro pg' hpg
    rcases List.mem_cons.1 hpg with rfl | hpg
    · exact h.ne_nil hi hclear
    · exact hrest.ne_nil pg' hpg
  results_eq := by
    intro hf
    rw [List.flatMap_cons, h.results_eq, hrest.results_eq hf, ← List.map_append,
      ← Period.starts_append hi hd h.first_le h.stop_le]

/-- From a boundary with everything before it shown, the chain comes to its end. -/
theorem exists_chain (hS : Serves b I E items) (hr : r.Bounded) (hL : Listable r items)
    (hcheck : r.check = .ok ()) (hlast : Stamp.least ≤ r.stop - r.bucketMillis)
    {token : Option String} {desk : Desk σ} (hI : I desk.store)
    (hresume : ({ r with token } : Request).resume = .ok (after, first)) (hf : first < r.stop)
    (hclear : Clear r p items first after) :
    ∃ pages failure, Chain b p r token desk pages failure ∧ Lists r items first pages failure ∧
      ∀ f ∈ failure, (∃ e, f = .store e ∧ E e) ∨
        Stamp.greatest < r.stop - r.start ∧ ∃ e, f = .token e := by
  induction hn : (r.stop - first).toNat using Nat.strongRecOn generalizing token desk after first with
  | ind n ih =>
    have hi := hr.increment_pos
    have hR : Resumes r first after := resumes_of_resume hresume
    have hends := page_ends (p := p) hS hr hL hcheck token hresume hf hlast hI
    rcases hpage : page b p { r with token } desk with ⟨res, desk'⟩
    rw [hpage] at hends
    obtain ⟨hI', hends⟩ := hends
    cases res with
    | error f =>
      refine ⟨[], some f, .failed hpage, ⟨fun _ h => absurd h List.not_mem_nil,
        fun h => absurd h (by simp)⟩, fun f' hf' => ?_⟩
      obtain rfl := Option.some.inj hf'
      exact .inl hends
    | ok pg =>
      obtain ⟨stop, hshows⟩ := hends
      cases ht : pg.token with
      | none =>
        obtain rfl := hshows.at_end ht
        refine ⟨[pg], none, .last hpage ht, ⟨?_, fun _ => ?_⟩, fun f h => absurd h (by simp)⟩
        · intro pg' hpg
          rw [List.mem_singleton.1 hpg]
          exact hshows.ne_nil hi hclear
        · rw [List.flatMap_cons, List.flatMap_nil, List.append_nil, hshows.results_eq]
      | some t =>
        obtain ⟨hlt, k, rfl, hR', -, hclear'⟩ := hshows.before_end t ht
        have hadvances := hshows.advances hclear
        have hd : r.increment ∣ stop - first := hR.dvd_sub hR'
        rcases resume_token hr hR' hlt with hnext | ⟨hwide, e, hrefused⟩
        · obtain ⟨pages, failure, hchain, hlists, hfail⟩ :=
            ih _ (by omega) hI' hnext hlt hclear' rfl
          exact ⟨pg :: pages, failure, .more hpage ht hchain,
            hshows.lists_cons hi hclear hd hlists, hfail⟩
        · refine ⟨[pg], some (.token e),
            .more hpage ht (.failed (page_of_resume_eq_error hcheck hrefused desk')), ⟨?_, ?_⟩, ?_⟩
          · intro pg' hpg
            rw [List.mem_singleton.1 hpg]
            exact hshows.ne_nil hi hclear
          · exact fun h => absurd h (by simp)
          · intro f hf'
            obtain rfl := Option.some.inj hf'
            exact .inr ⟨hwide, e, rfl⟩

/-! ## Listings of histories -/

theorem chain_of_sound {m : Memory} (hs : m.Sound) (hr : r.Bounded) (hcheck : r.check = .ok ())
    (hlast : Stamp.least ≤ r.stop - r.bucketMillis) (p : Paging) {desk : Desk Memory}
    (hrows : desk.store.rows = m.rows) :
    ∃ pages failure, Chain Memory.backend p r none desk pages failure ∧
      Lists r m.items r.start pages failure ∧
      (desk.store.Readable → r.stop - r.start ≤ Stamp.greatest → failure = none) := by
  have hf := (check_eq_ok.1 hcheck).2.2
  have hresume : ({ r with token := none } : Request).resume = .ok (none, r.start) := rfl
  have hclear : Clear r p m.items r.start none := fun i hi => (mem_wanted hi).2.2.1
  by_cases hread : desk.store.Readable
  · obtain ⟨pages, failure, hchain, hlists, hfail⟩ := exists_chain m.serves_readable hr (hs.listable r)
      hcheck hlast ⟨hrows, hread⟩ hresume hf hclear
    refine ⟨pages, failure, hchain, hlists, fun _ hnarrow => Option.eq_none_iff_forall_not_mem.2 ?_⟩
    intro f hff
    rcases hfail f hff with ⟨_, -, h⟩ | ⟨hwide, -⟩
    · exact h
    · omega
  · obtain ⟨pages, failure, hchain, hlists, -⟩ := exists_chain m.serves hr (hs.listable r) hcheck hlast
      hrows hresume hf hclear
    exact ⟨pages, failure, hchain, hlists, fun h => absurd h hread⟩

end Footage.Listing
