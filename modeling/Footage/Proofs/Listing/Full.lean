import Footage.Proofs.Listing.Sound

/-!
# Full pages

A page shows a limited number of periods. The limit is turned into a time at which the page is full, in
steps of which each has to fit a stored number (`fullAt?_eq`); where one does not, nothing cuts the page.

1. That the time itself does not fit makes no difference: the listing ends before it.
2. The length of the periods on a full page may not fit either. Then a page of a range that is wider
   than the greatest stored number can show more periods than the limit, and no more than twice as many.

`pages_bounded_iff` tells the requests of which some page does.
-/

namespace Footage.Listing

open Footage.Task

variable {r : Request} {p : Paging} {after : Option Key} {first : Int}

/-! ## Where a page stops -/

theorem periodLimit_pos (p : Paging) : 1 ≤ p.periodLimit := Nat.le_max_left _ _

/-- A page that starts at a stored number can be full if its length and its end are stored numbers. -/
theorem fullAt?_eq (hi : 0 < r.increment) (hfirst : Stamp.least ≤ first) :
    fullAt? r p first =
      if p.periodLimit * r.increment ≤ Stamp.greatest ∧
          first + p.periodLimit * r.increment ≤ Stamp.greatest then
        some (first + p.periodLimit * r.increment)
      else none := by
  have hlimit := periodLimit_pos p
  have hleast : Stamp.least ≤ 0 := by decide
  have hle : (p.periodLimit : Int) ≤ p.periodLimit * r.increment := by
    have := Int.mul_le_mul_of_nonneg_left (show 1 ≤ r.increment by omega)
      (show 0 ≤ (p.periodLimit : Int) by omega)
    rwa [Int.mul_one] at this
  have hsome {t : Int} (h₀ : Stamp.least ≤ t) (h₁ : t ≤ Stamp.greatest) : Stamp.fit? t = some t :=
    Stamp.fit?_eq_some.2 ⟨⟨h₀, h₁⟩, rfl⟩
  have hnone {t : Int} (h : ¬ t ≤ Stamp.greatest) : Stamp.fit? t = none :=
    Stamp.fit?_eq_none.2 fun hf => h hf.2
  unfold fullAt?
  by_cases hlength : p.periodLimit * r.increment ≤ Stamp.greatest
  · rw [hsome (by omega) (by omega)]
    show (Stamp.fit? (p.periodLimit * r.increment)).bind _ = _
    rw [hsome (by omega) hlength]
    show Stamp.fit? (first + p.periodLimit * r.increment) = _
    by_cases hend : first + p.periodLimit * r.increment ≤ Stamp.greatest
    · rw [hsome (by omega) hend, if_pos ⟨hlength, hend⟩]
    · rw [hnone hend, if_neg fun h => hend h.2]
  · rw [if_neg fun h => hlength h.1]
    cases hcount : Stamp.fit? (p.periodLimit : Int) with
    | none => rfl
    | some count =>
      obtain ⟨-, rfl⟩ := Stamp.fit?_eq_some.1 hcount
      show (Stamp.fit? (p.periodLimit * r.increment)).bind _ = _
      rw [hnone hlength]
      rfl

theorem pageStop_le (r : Request) (p : Paging) (first d : Int) : (pageStop r p first d).1 ≤ d := by
  unfold pageStop
  cases fullAt? r p first with
  | none => exact Int.le_refl d
  | some cap =>
    by_cases hlt : cap < d
    · simp only [hlt, if_true]
      omega
    · simp only [hlt, if_false]
      exact Int.le_refl d

/-- A page stops within the limit, unless the length or the end of a full page is no stored number. -/
theorem pageStop_le_or (hi : 0 < r.increment) (hfirst : Stamp.least ≤ first) (d : Int) :
    (pageStop r p first d).1 ≤ first + p.periodLimit * r.increment ∨
      ¬ (p.periodLimit * r.increment ≤ Stamp.greatest ∧
        first + p.periodLimit * r.increment ≤ Stamp.greatest) := by
  by_cases hfits : p.periodLimit * r.increment ≤ Stamp.greatest ∧
      first + p.periodLimit * r.increment ≤ Stamp.greatest
  · left
    unfold pageStop
    rw [fullAt?_eq hi hfirst, if_pos hfits]
    by_cases hlt : first + p.periodLimit * r.increment < d
    · simp only [hlt, if_true]
      exact Int.le_refl _
    · simp only [hlt, if_false]
      omega
  · exact .inr hfits

/-! ## How many periods a page shows -/

/-- The periods of a page start at the boundaries from the first one up to the stop of the page. -/
theorem map_start_of_pageOf (hr : r.Bounded) {g : Gathered} (hg : g.stop ≤ r.stop) {pg : PeriodPage}
    (h : pageOf r p first g = .ok pg) :
    pg.results.map (·.start) = Period.starts r.increment first (pageStop r p first g.stop).1 := by
  have hle := hr.le_greatest
  have hstop := pageStop_le r p first g.stop
  unfold pageOf at h
  obtain ⟨buckets, -, h⟩ := bind_eq_ok.1 h
  obtain rfl := Except.ok.inj h
  exact Period.map_start_distribute hr.increment_pos (Int.le_trans hstop (by omega)) _ _

/-- Every page of a request shows at most `n` periods, whatever was saved before, wherever the store ends
its own pages and whichever calls it fails. -/
def PagesAtMost (p : Paging) (r : Request) (n : Nat) : Prop :=
  ∀ (arrivals : List Rollup.Arrival) (desk desk' : Desk Memory) (pg : PeriodPage),
    desk.store.rows = (Rollup.History.of arrivals).store.rows →
    page Memory.backend p r desk = (.ok pg, desk') → pg.results.length ≤ n

/-- Pages are as short as the stretch in which they stop. -/
theorem pagesAtMost_of_pageStop_le {n : Nat} (hstart : Stamp.Fits r.start) (hstop : Stamp.Fits r.stop)
    (hresume : r.resume = .ok (after, first))
    (hn : ∀ d ≤ r.stop, (pageStop r p first d).1 ≤ first + n * r.increment) : PagesAtMost p r n := by
  intro arrivals desk desk' pg hrows hpage
  have hs : desk.store.Sound := (Rollup.sound_of arrivals).congr hrows
  obtain ⟨after', first', h⟩ := answered_of_page_eq_ok hs hstart hstop rfl hpage
  obtain ⟨rfl, rfl⟩ := Prod.mk.inj (Except.ok.inj (hresume.symm.trans h.resume))
  by_cases hf : first < r.stop
  · have hends := page_gathers (p := p) desk.store.serves h.bounded (hs.listable r) h.check r.token
      hresume hf (h.shows hf).1 rfl
    rw [hpage] at hends
    obtain ⟨-, g, hg, hpg⟩ := hends
    rw [← List.length_map (f := Period.start), map_start_of_pageOf h.bounded hg.stop_le hpg,
      Period.length_starts_le_iff h.bounded.increment_pos]
    exact hn g.stop hg.stop_le
  · rw [h.empty (Int.not_lt.1 hf)]
    exact Nat.zero_le n

/-- A new store shows all that is left of a listing, up to where the page is full. -/
theorem exists_page_of_new (p : Paging) (hr : r.Bounded) (hcheck : r.check = .ok ())
    (hresume : r.resume = .ok (after, first)) (hf : first < r.stop)
    (hlast : Stamp.least ≤ r.stop - r.bucketMillis) :
    ∃ pg desk', page Memory.backend p r ⟨(Rollup.History.of []).store, ⟨0, 0⟩⟩ = (.ok pg, desk') ∧
      pg.results.map (·.start) = Period.starts r.increment first (pageStop r p first r.stop).1 := by
  have hs := Rollup.sound_of []
  have hends : Ends _ _ _ (page Memory.backend p r ⟨(Rollup.History.of []).store, ⟨0, 0⟩⟩) :=
    page_gathers (Rollup.History.of []).store.serves_readable hr (hs.listable r) hcheck r.token hresume
      hf hlast ⟨rfl, rfl, rfl⟩
  obtain ⟨pg, desk', hpage, -, g, hg, hpg⟩ := hends.exists_ok fun _ ⟨_, _, hno⟩ => hno
  -- where nothing is stored, nothing stops the data of a page before the end
  have hstop : g.stop = r.stop := by
    refine Int.le_antisymm hg.stop_le (Int.not_lt.1 fun hlt => ?_)
    obtain ⟨-, last, hlast, -⟩ := hg.at_boundary hlt
    rw [hg.items_eq] at hlast
    exact absurd hlast (by simp [wanted, RangeRead.select, Rollup.History.of, Memory.items,
      OrderedMap.empty])
  have hstarts := map_start_of_pageOf hr hg.stop_le hpg
  rw [hstop] at hstarts
  exact ⟨pg, desk', hpage, hstarts⟩

/-- Where the length of a full page is no stored number and more periods are left than it holds, a new store
shows them all. -/
theorem exists_overfull (hr : r.Bounded) (hcheck : r.check = .ok ())
    (hresume : r.resume = .ok (after, first)) (hfirst : Stamp.least ≤ first)
    (hlength : ¬ p.periodLimit * r.increment ≤ Stamp.greatest)
    (hleft : first + p.periodLimit * r.increment < r.stop) :
    ∃ pg desk', page Memory.backend p r ⟨(Rollup.History.of []).store, ⟨0, 0⟩⟩ = (.ok pg, desk') ∧
      p.periodLimit < pg.results.length := by
  have hgreatest : 0 ≤ Stamp.greatest := by decide
  -- the end of the listing is after the origin of time, so a bucket fits before it
  have hlast : Stamp.least ≤ r.stop - r.bucketMillis := by
    have : Stamp.least + Stamp.greatest + 1 = 0 := by decide
    have : r.bucketMillis ≤ Stamp.greatest := by
      unfold Request.bucketMillis
      cases r.granularity <;> decide
    omega
  obtain ⟨pg, desk', hpage, hstarts⟩ := exists_page_of_new p hr hcheck hresume (by omega) hlast
  have huncut : (pageStop r p first r.stop).1 = r.stop := by
    unfold pageStop
    rw [fullAt?_eq hr.increment_pos hfirst, if_neg fun h => hlength h.1]
  refine ⟨pg, desk', hpage, Nat.lt_of_not_le fun hcount => ?_⟩
  rw [← List.length_map (f := Period.start), hstarts, huncut,
    Period.length_starts_le_iff hr.increment_pos] at hcount
  omega

/-- **Which pages are bounded.** A page keeps the limit on its periods unless a full page would be longer than
the greatest stored number; then it may have up to twice as many. -/
theorem pages_bounded_iff (p : Paging) (r : Request) (hstart : Stamp.Fits r.start)
    (hstop : Stamp.Fits r.stop) (hcheck : r.check = .ok ())
    (hresume : r.resume = .ok (after, first)) :
    PagesAtMost p r (2 * p.periodLimit) ∧
      (PagesAtMost p r p.periodLimit ↔
        p.periodLimit * r.increment ≤ Stamp.greatest ∨
          r.stop ≤ first + p.periodLimit * r.increment) := by
  have hr : r.Bounded := ⟨(check_eq_ok.1 hcheck).1, hstart.1, hstop.2⟩
  have hfirst : Stamp.least ≤ first :=
    Int.le_trans hr.least_le (start_le_first hr.increment_pos (resumes_of_resume hresume))
  have hle := hr.le_greatest
  have hwide : Stamp.greatest - Stamp.least ≤ 2 * Stamp.greatest + 1 := by decide
  refine ⟨pagesAtMost_of_pageStop_le hstart hstop hresume fun d hd => ?_, fun h => ?_, fun h => ?_⟩
  · -- a full page that is longer than the greatest stored number is longer than half of any range
    have hd' := pageStop_le r p first d
    have htwice : ((2 * p.periodLimit : Nat) : Int) * r.increment =
        2 * (p.periodLimit * r.increment) := by
      rw [Int.natCast_mul, Int.mul_assoc]
      rfl
    have hpos : 0 ≤ (p.periodLimit : Int) * r.increment :=
      Int.mul_nonneg (by omega) (Int.le_of_lt hr.increment_pos)
    rw [htwice]
    rcases pageStop_le_or (p := p) hr.increment_pos hfirst d with h | h <;> omega
  · refine Decidable.byContradiction fun hno => ?_
    have hlength : ¬ p.periodLimit * r.increment ≤ Stamp.greatest := fun h => hno (.inl h)
    have hleft : first + p.periodLimit * r.increment < r.stop := Int.not_le.1 fun h => hno (.inr h)
    obtain ⟨pg, desk', hpage, hmany⟩ := exists_overfull hr hcheck hresume hfirst hlength hleft
    exact absurd (h [] _ _ pg rfl hpage) (Nat.not_le.2 hmany)
  · refine pagesAtMost_of_pageStop_le hstart hstop hresume fun d hd => ?_
    have hd' := pageStop_le r p first d
    rcases pageStop_le_or (p := p) hr.increment_pos hfirst d with h | h <;> omega

/-- From the least stored number to the greatest with an increment of more than half of that: pages of one
period keep their limit, and pages of two do not. -/
theorem pages_bounded_iff_wide :
    let r : Request := ⟨"d", .seconds, Stamp.least, Stamp.greatest, 5000000000000000000, none⟩
    PagesAtMost { periodsPerPage := 1 } r 1 ∧ ¬ PagesAtMost { periodsPerPage := 2 } r 2 ∧
      PagesAtMost { periodsPerPage := 2 } r 4 := by
  intro r
  have hcheck : r.check = .ok () := check_eq_ok.2 (by decide)
  obtain ⟨-, hone⟩ := pages_bounded_iff { periodsPerPage := 1 } r (by decide) (by decide) hcheck rfl
  obtain ⟨htwice, htwo⟩ := pages_bounded_iff { periodsPerPage := 2 } r (by decide) (by decide) hcheck rfl
  exact ⟨hone.2 (by decide), fun h => absurd (htwo.1 h) (by decide), htwice⟩

/-- Such a page of two periods at the most, over a new store, shows four. -/
theorem page_overfull :
    let r : Request := ⟨"d", .seconds, Stamp.least, Stamp.greatest, 5000000000000000000, none⟩
    let p : Paging := { periodsPerPage := 2 }
    ∃ pg, (page Memory.backend p r ⟨(Rollup.History.of []).store, ⟨0, 0⟩⟩).1 = .ok pg ∧
      pg.token = none ∧ p.periodLimit < pg.results.length := by
  intro r p
  refine ⟨⟨[⟨Stamp.least, 0, 0, 0⟩, ⟨-4223372036854775808, 0, 0, 0⟩, ⟨776627963145224192, 0, 0, 0⟩,
    ⟨5776627963145224192, 0, 0, 0⟩], none⟩, eq_ok_of_toOption (by decide +kernel), rfl, by decide⟩

end Footage.Listing
