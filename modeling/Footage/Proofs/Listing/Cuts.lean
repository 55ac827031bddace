import Footage.Proofs.Listing.Chain
import Footage.Proofs.Listing.Density

/-!
# Any cuts make a page of a listing

A store may cut its pages wherever it likes (`Cuts`): it may leave a page empty, or name a key far past
the last item, and one before the range where no item came yet.

1. Such a store answers in the sense in which all that is known of listings was shown
   (`Cuts.serves`): it names a key past the one after which it resumed, so it runs out of keys to name.
2. So a listing of readable, aligned buckets is answered, in however many reads, with whole periods up to
   the end or up to the boundary after its token (`page_ends`).
3. The buckets do not overlap. So in a range no wider than the greatest stored number their sums stay
   within a density (`Stocked.video_le`), and boundaries are found (`Resumes.boundary`).
-/

namespace Footage

/-- The key is a stored number past the one after which the read resumes. -/
def RangeRead.Past (q : RangeRead) (k : Key) : Prop := Stamp.Fits k.sort ∧ ∀ j ∈ q.after, j.sort < k.sort

instance (q : RangeRead) : DecidablePred q.Past := fun k =>
  inferInstanceAs (Decidable (Stamp.Fits k.sort ∧ ∀ j ∈ q.after, j.sort < k.sort))

/-- In states that satisfy `I` the store answers every range read with some cut of these items, and stays in
such a state. The key that it names is past the one after which the read resumed. -/
structure Cuts {σ : Type} (b : Backend σ) (I : σ → Prop) (items : List Item) : Prop where
  read (q : RangeRead) (s : σ) (hI : I s) : ∃ page left s', b.read q s = (.ok page, s') ∧ I s' ∧
    Cut items q page left ∧ ∀ k ∈ page.next, q.Past k

theorem Cut.answers {items : List Item} {q : RangeRead} {page : RangePage} {left : List Item}
    (h : Cut items q page left) (hk : ∀ k ∈ page.next, q.Past k) : Answers items q page left := by
  refine ⟨h, fun k hnext => ?_⟩
  obtain ⟨hfits, hpast⟩ := hk k hnext
  have hleast := hfits.1
  rcases q with ⟨_, lower, _, _ | j, _⟩
  · show min lower Stamp.least ≤ k.sort
    omega
  · have hj : j.sort < k.sort := hpast j rfl
    show max (min lower Stamp.least) (min (j.sort + 1) Stamp.greatest) ≤ k.sort
    omega

theorem Cuts.serves {σ : Type} {b : Backend σ} {I : σ → Prop} {items : List Item} (h : Cuts b I items) :
    Serves b I (fun _ => False) items where
  read q s hI := by
    obtain ⟨page, left, s', hread, hI', hcut, hk⟩ := h.read q s hI
    rw [hread]
    exact ⟨hI', left, hcut.answers hk⟩

/-! ## A store that hesitates -/

namespace Hesitant

/-- A page of the items that a query selects: an empty one with the key right before the first item, then
that item, and all that is left where no key can be named. -/
def page (q : RangeRead) : List Item → RangePage
  | [] => {}
  | i :: is =>
    let before : Key := ⟨q.partition, i.key.sort - 1⟩
    if q.Past before then ⟨[], some before⟩
    else if q.Past i.key then ⟨[i], some i.key⟩
    else ⟨i :: is, none⟩

/-- A store in memory that answers range reads with such pages. -/
def backend : Backend Memory :=
  { Memory.backend with read := fun q m => (.ok (page q (q.select m.items)), m) }

theorem cut_page {items : List Item} (hasc : Ascending items) (q : RangeRead) :
    ∃ left, Cut items q (page q (q.select items)) left ∧ ∀ k ∈ (page q (q.select items)).next, q.Past k := by
  have hsorted := RangeRead.pairwise_select hasc q
  have hall : ∃ left, Cut items q ⟨q.select items, none⟩ left ∧ ∀ k ∈ (none : Option Key), q.Past k :=
    ⟨[], Cut.all items q, fun k hk => absurd hk (by simp)⟩
  rcases hsel : q.select items with _ | ⟨i, is⟩
  · rwa [hsel] at hall
  · rw [hsel] at hsorted
    have hlater := (List.pairwise_cons.1 hsorted).1
    obtain ⟨hp, -, hu⟩ := (RangeRead.mem_select.1 (hsel ▸ List.mem_cons_self : i ∈ q.select items)).2
    unfold page
    by_cases hbefore : q.Past ⟨q.partition, i.key.sort - 1⟩
    · simp only [if_pos hbefore]
      refine ⟨i :: is, Cut.named hsel rfl (show i.key.sort - 1 ≤ q.upper by omega)
        (fun _ h => absurd h List.not_mem_nil) fun j hj => ?_, by rintro _ ⟨⟩; exact hbefore⟩
      show i.key.sort - 1 < j.key.sort
      rcases List.mem_cons.1 hj with rfl | hj
      · omega
      · have := hlater j hj
        omega
    · by_cases hpast : q.Past i.key
      · simp only [if_neg hbefore, if_pos hpast]
        refine ⟨is, Cut.named hsel hp hu (fun j hj => ?_) hlater, by rintro _ ⟨⟩; exact hpast⟩
        obtain rfl := List.mem_singleton.1 hj
        exact Int.le_refl _
      · simp only [if_neg hbefore, if_neg hpast]
        rwa [hsel] at hall

theorem cuts (m : Memory) : Cuts backend (·.rows = m.rows) m.items where
  read q s hs := by
    rw [← Memory.items_congr hs]
    obtain ⟨left, hcut, hk⟩ := cut_page s.ascending_items q
    exact ⟨_, left, s, rfl, hs, hcut, hk⟩

end Hesitant

namespace Listing

variable {σ : Type} {b : Backend σ} {I : σ → Prop} {items : List Item} {r : Request} {p : Paging}
  {after : Option Key} {first stop : Int} {k : Key}

/-- The items of the listing's partition are aligned buckets that hold no more video than they are long. -/
def Stocked (r : Request) (items : List Item) : Prop :=
  ∀ i ∈ items, i.key.partition = r.partition → r.granularity.Aligned i.key.sort ∧
    ∃ c, Bucket.ofItem r.device r.granularity i = .ok c ∧ (c.total : Int) ≤ r.granularity.millis

theorem stocked_of_sound {m : Memory} (h : m.Sound) (r : Request) : Stocked r m.items := by
  intro i hi hp
  obtain ⟨c, hc, ha, htotal⟩ := h.exists_bucket hi hp
  exact ⟨ha, c, hc, htotal⟩

namespace Stocked

theorem listable (h : Stocked r items) (hasc : Ascending items) : Listable r items where
  ascending := hasc
  aligned i hi hp := (h i hi hp).1
  readable i hi hp := by
    obtain ⟨-, c, hc, -⟩ := h i hi hp
    exact ⟨c, hc⟩

theorem of_mem_listed (h : Stocked r items) {c : Bucket} (hc : c ∈ listed r items) :
    r.bucketMillis ∣ c.start ∧ (c.total : Int) ≤ r.bucketMillis ∧ c.start ≤ r.stop - r.bucketMillis := by
  obtain ⟨hmem, hend⟩ := List.mem_filter.1 hc
  obtain ⟨i, hi, ho⟩ := List.mem_filterMap.1 hmem
  obtain ⟨him, hp⟩ := List.mem_filter.1 hi
  obtain ⟨ha, c', hc', htotal⟩ := h i him (of_decide_eq_true hp)
  obtain rfl : c' = c := by
    rw [hc'] at ho
    exact Option.some.inj ho
  rw [(Bucket.parts_of_ofItem hc').2.2]
  exact ⟨Int.dvd_of_emod_eq_zero ha, htotal, by
    rw [← (Bucket.parts_of_ofItem hc').2.2]
    exact of_decide_eq_true hend⟩

theorem spaced_listed (h : Stocked r items) (hasc : Ascending items) :
    Bucket.Spaced r.bucketMillis (listed r items) := by
  refine Bucket.spaced_of_sorted ?_ fun c hc => (h.of_mem_listed hc).1
  refine (Bucket.sorted_decoded ((hasc.filter _).imp_of_mem fun {i j} hi hj hij => hij ?_)).filter _
  rw [of_decide_eq_true (List.mem_filter.1 hi).2, of_decide_eq_true (List.mem_filter.1 hj).2]

/-- The video of a period is no more than what is left to the end. -/
theorem video_le (h : Stocked r items) (hasc : Ascending items) {t : Int} (ht : t < r.stop) :
    (Bucket.video ((listed r items).filter fun c => t ≤ c.start ∧ c.start < t + r.increment) : Int) ≤
      r.stop - t := by
  have hsum : (Bucket.video ((listed r items).filter fun c => t ≤ c.start ∧ c.start < t + r.increment) : Int) ≤
      max 0 (r.stop - r.bucketMillis - t + r.bucketMillis) := by
    apply Bucket.video_le ((h.spaced_listed hasc).filter _)
    intro c hc
    obtain ⟨hmem, hin⟩ := List.mem_filter.1 hc
    obtain ⟨-, htotal, hend⟩ := h.of_mem_listed hmem
    exact ⟨(of_decide_eq_true hin).1, hend, htotal⟩
  omega

/-- A shown period has the sums over its buckets. -/
theorem sums (h : Stocked r items) (hasc : Ascending items)
    (hnarrow : r.stop - r.start ≤ Stamp.greatest) (hfirst : r.start ≤ first) {pg : PeriodPage}
    (hshows : Shows r p items after first stop pg) {q : Period} (hq : q ∈ pg.results) :
    let bs := (listed r items).filter fun c => q.start ≤ c.start ∧ c.start < q.start + r.increment
    q.cloudDensity = (bs.map (·.cloudDensity)).sum ∧ q.deviceDensity = (bs.map (·.deviceDensity)).sum ∧
      q.density = q.cloudDensity + q.deviceDensity ∧ q.density ≤ Density.greatest := by
  rw [hshows.results_eq] at hq
  obtain ⟨t, ht, rfl⟩ := List.mem_map.1 hq
  obtain ⟨hft, hts⟩ := Period.le_of_mem_starts ht
  have hstop := hshows.stop_le
  have hgreatest : Stamp.greatest ≤ Density.greatest := by decide
  rw [Period.start_holding, Period.holding_eq]
  intro bs
  have hvideo : (Bucket.video bs : Int) ≤ r.stop - t := h.video_le hasc (by omega)
  refine ⟨rfl, rfl, Bucket.video_eq bs, ?_⟩
  show Bucket.video bs ≤ Density.greatest
  omega

end Stocked

/-- **Cuts do not matter to one call.** However the store cuts its pages, the page shows each period up to its
stop with exact sums, and its token resumes where it stops. -/
theorem page_of_cuts (hb : Cuts b I items) (hasc : Ascending items) (p : Paging) (r : Request)
    (hitems : Stocked r items) (hstart : Stamp.Fits r.start) (hstop : Stamp.Fits r.stop)
    (hnarrow : r.stop - r.start ≤ Stamp.greatest) (hcheck : r.check = .ok ())
    (hresume : r.resume = .ok (after, first)) {desk : Desk σ} (hI : I desk.store) :
    (first < r.stop ∧ r.stop - r.granularity.millis < Stamp.least ∧
      page b p r desk = (.error (.request (.tooEarly r.stop)), desk)) ∨
    ∃ pg desk' stop, page b p r desk = (.ok pg, desk') ∧ I desk'.store ∧
      pg.results.Pairwise (fun q q' => q.start < q'.start) ∧
      (∀ t, (∃ q ∈ pg.results, q.start = t) ↔ t < stop ∧ ∃ n : ℕ, t = first + n * r.increment) ∧
      (∀ q ∈ pg.results,
        let bs := (listed r items).filter fun c => q.start ≤ c.start ∧ c.start < q.start + r.increment
        q.cloudDensity = (bs.map (·.cloudDensity)).sum ∧ q.deviceDensity = (bs.map (·.deviceDensity)).sum ∧
        q.density = q.cloudDensity + q.deviceDensity ∧ q.density ≤ Density.greatest) ∧
      (first < r.stop → first ≤ stop) ∧ (pg.token = none → stop = r.stop) ∧
      ∀ t ∈ pg.token, stop < r.stop ∧ ∃ k, Token.decode r.partition t = .ok k ∧
        boundaryAfter? r.start r.increment k.sort = some stop := by
  have hr : r.Bounded := ⟨(check_eq_ok.1 hcheck).1, hstart.1, hstop.2⟩
  have hi := hr.increment_pos
  by_cases hf : first < r.stop
  · by_cases hlast : Stamp.least ≤ r.stop - r.bucketMillis
    · have hends := page_ends (p := p) hb.serves hr (hitems.listable hasc) hcheck r.token hresume hf hlast hI
      obtain ⟨pg, desk', hpage, hI', stop, hshows⟩ := hends.exists_ok fun f ⟨_, _, h⟩ => h
      have hmap : pg.results.map (·.start) = Period.starts r.increment first stop := by
        rw [hshows.results_eq, Period.map_start_holding]
      refine .inr ⟨pg, desk', stop, hpage, hI', Period.pairwise_of_map_start hi hmap,
        Period.exists_start_iff hi hmap, fun q hq => ?_, fun _ => hshows.first_le, hshows.at_end,
        fun t ht => ?_⟩
      · exact hitems.sums hasc hnarrow (start_le_first hi (resumes_of_resume hresume)) hshows hq
      · obtain ⟨hlt, k, rfl, hR, -⟩ := hshows.before_end t ht
        exact ⟨hlt, k, hR.decode_encode hr, hR.boundary hr hlt (by omega)⟩
    · exact .inl ⟨hf, Int.not_le.1 hlast, page_too_early hcheck hresume hf (Int.not_le.1 hlast) desk⟩
  · have hle := Int.not_lt.1 hf
    have hmap : ([] : List Period).map (·.start) = Period.starts r.increment first r.stop :=
      (Period.starts_of_le hle).symm
    refine .inr ⟨{}, desk, r.stop, page_of_stop_le hcheck hresume hle desk, hI, List.Pairwise.nil,
      Period.exists_start_iff hi hmap, fun _ hq => absurd hq List.not_mem_nil,
      fun h => absurd h hf, fun _ => rfl, fun t ht => absurd ht (by simp)⟩

/-- From the start of a bucket on, the first page of a store that hesitates is empty, and its key is before the
range. The period of the bucket is completed with an empty page as well. -/
theorem page_of_cuts_hesitant :
    let arrivals : List Rollup.Arrival :=
      [⟨.increment ⟨"d", .seconds, 1000, 400, .device⟩, ⟨7, 0⟩, {}⟩,
        ⟨.increment ⟨"d", .seconds, 2000, 700, .cloud⟩, ⟨8, 0⟩, {}⟩,
        ⟨.increment ⟨"d", .seconds, 4000, 100, .cloud⟩, ⟨9, 0⟩, {}⟩]
    let m := (Rollup.History.of arrivals).store
    let r : Request := ⟨"d", .seconds, 1000, 6000, 2000, none⟩
    let q : Period := ⟨1000, 1100, 700, 400⟩
    let t := Token.encode ⟨"d#SECONDS", 2000⟩
    (Hesitant.backend.read (query r {} 5000) m).1 = .ok ⟨[], some ⟨"d#SECONDS", 999⟩⟩ ∧
      (page Hesitant.backend {} r ⟨m, ⟨0, 0⟩⟩).1 = .ok ⟨[q], some t⟩ ∧ q.density ≤ Density.greatest ∧
      ∃ stop k, Token.decode r.partition t = .ok k ∧
        boundaryAfter? r.start r.increment k.sort = some stop ∧ 1000 < stop ∧ stop < r.stop := by
  intro arrivals m r q t
  have hpage : (page Hesitant.backend {} r ⟨m, ⟨0, 0⟩⟩).1 = .ok ⟨[q], some t⟩ :=
    eq_ok_of_toOption (by decide +kernel)
  refine ⟨eq_ok_of_toOption (by decide +kernel), hpage, ?_⟩
  have hsame : (⟨m, ⟨0, 0⟩⟩ : Desk Memory).store.rows = m.rows := rfl
  rcases page_of_cuts (Hesitant.cuts m) m.ascending_items {} r (stocked_of_sound (Rollup.sound_of arrivals) r)
    (by decide) (by decide) (by decide) (check_eq_ok.2 ⟨by decide, by decide, by decide⟩) rfl hsame with
    ⟨-, h, -⟩ | ⟨pg, desk', stop, hpg, -, -, hstarts, hsums, -, -, htoken⟩
  · exact absurd h (by decide)
  · rw [hpg] at hpage
    obtain rfl := Except.ok.inj hpage
    obtain ⟨-, -, -, hle⟩ := hsums q List.mem_cons_self
    obtain ⟨hlt, k, hdecode, hboundary⟩ := htoken t rfl
    exact ⟨hle, stop, k, hdecode, hboundary, ((hstarts 1000).1 ⟨q, List.mem_cons_self, rfl⟩).1, hlt⟩

end Listing

end Footage
