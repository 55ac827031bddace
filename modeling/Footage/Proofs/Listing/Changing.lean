import Footage.Proofs.Follow
import Footage.Proofs.Listing.Chain

/-!
# Listings of a store that changes

Between two calls of a listing more events may be saved, and the store may get another page size. A new
bucket may lie behind the position of the token, in the period that the token points into, or after it.

1. Every store on the way is sound, so `page_ends` says what each page shows, of the store as it is then.
2. A page stops at a boundary of the listing, which depends on the request alone. Its token resumes there,
   whatever has been stored since (`resume_token`).
3. So the periods of two pages meet, although a page may have none. What makes the listing end is not the
   periods but the positions of the tokens, which strictly increase (`exists_follows`).
-/

namespace Footage.Listing

open Footage.Task

/-- What happens to a store between two calls. -/
inductive Change
  /-- An event arrives, and is accepted or not. Only the calls of this arrival fail. -/
  | save (a : Rollup.Arrival)
  /-- From now on the store returns pages of this size. -/
  | resize (pageSize : Option Nat)

namespace Change

/-- The store after a change. -/
def apply (m : Memory) : Change → Memory
  | save a =>
    let desk : Desk Memory := ⟨{ m with faults := a.faults }, a.clock⟩
    { (Rollup.save Memory.backend a.event desk).2.store with faults := m.faults }
  | resize pageSize => { m with pageSize }

/-- The store after some changes. -/
def applyAll (m : Memory) (cs : List Change) : Memory := cs.foldl apply m

theorem sound_apply {m : Memory} (h : m.Sound) (c : Change) : (c.apply m).Sound := by
  cases c with
  | save a =>
    have hm : ({ m with faults := a.faults } : Memory).Sound := h.congr rfl
    have hsave : (Rollup.save Memory.backend a.event ⟨_, a.clock⟩).2.store.Sound :=
      Rollup.sound_save hm a.event
    exact hsave.congr rfl
  | resize => exact h.congr rfl

theorem faults_apply (m : Memory) (c : Change) : (c.apply m).faults = m.faults := by cases c <;> rfl

theorem sound_applyAll {m : Memory} (h : m.Sound) (cs : List Change) : (applyAll m cs).Sound :=
  List.foldlRecOn cs apply h fun _ h c _ => sound_apply h c

theorem faults_applyAll (m : Memory) (cs : List Change) : (applyAll m cs).faults = m.faults :=
  List.foldlRecOn (motive := fun m' => m'.faults = m.faults) cs apply rfl
    fun _ h c _ => (faults_apply _ c).trans h

theorem readable_applyAll {m : Memory} (h : m.Readable) (cs : List Change) : (applyAll m cs).Readable := by
  unfold Memory.Readable
  rw [faults_applyAll]
  exact h

end Change

/-- A call of a listing, and the changes of the store before the next call. -/
def turn (p : Paging) (r : Request) (changes : Nat → List Change) (n : Nat) (token : Option String) :
    DeskTask Memory PeriodPage := fun desk =>
  let (answer, desk) := page Memory.backend p { r with token } desk
  (answer, desk.change (Change.applyAll · (changes n)))

variable {r : Request} {p : Paging} {after : Option Key} {first stop : Int} {changes : Nat → List Change}

/-- The position of a key to resume after; without one, that before the start. -/
def position (r : Request) (after : Option Key) : Int := (after.map (·.sort)).getD (r.start - 1)

/-- The pages that resume after a position show all periods from `first` on, one after the other, and
their tokens name later and later positions of the listing. -/
structure Sweeps (r : Request) (position first : Int) (pages : List PeriodPage) : Prop where
  starts_eq : (pages.flatMap (·.results)).map (·.start) = Period.starts r.increment first r.stop
  keys : ∃ keys : List Key, (pages.filterMap (·.token)).map (Token.decode r.partition) = keys.map .ok ∧
    keys.Pairwise (fun j k => j.sort < k.sort) ∧
    ∀ k ∈ keys, position < k.sort ∧ r.start ≤ k.sort ∧ k.sort < r.stop

theorem Shows.map_start {items : List Item} {pg : PeriodPage} (h : Shows r p items after first stop pg) :
    pg.results.map (·.start) = Period.starts r.increment first stop := by
  rw [h.results_eq, Period.map_start_holding]

theorem Shows.sweeps_last {items : List Item} {pg : PeriodPage} (h : Shows r p items after first stop pg)
    (ht : pg.token = none) (position : Int) : Sweeps r position first [pg] where
  starts_eq := by
    rw [List.flatMap_cons, List.flatMap_nil, List.append_nil, h.map_start, h.at_end ht]
  keys := ⟨[], by simp [ht], List.Pairwise.nil, fun _ hk => absurd hk List.not_mem_nil⟩

theorem Shows.sweeps_more {items : List Item} {pg : PeriodPage} {pages : List PeriodPage} {k : Key}
    (hr : r.Bounded) (h : Shows r p items after first stop pg) (hR : Resumes r first after)
    (hR' : Resumes r stop (some k)) (ht : pg.token = some (Token.encode k))
    (hlt : position r after < k.sort) (hrest : Sweeps r k.sort stop pages) :
    Sweeps r (position r after) first (pg :: pages) where
  starts_eq := by
    rw [List.flatMap_cons, List.map_append, h.map_start, hrest.starts_eq,
      ← Period.starts_append hr.increment_pos (hR.dvd_sub hR') h.first_le h.stop_le]
  keys := by
    obtain ⟨keys, hkeys, hasc, hin⟩ := hrest.keys
    have hdecode := hR'.decode_encode hr
    obtain ⟨-, hs, hks, -⟩ := hR'
    refine ⟨k :: keys, ?_, List.pairwise_cons.2 ⟨fun j hj => (hin j hj).1, hasc⟩, ?_⟩
    · rw [List.filterMap_cons, ht]
      simp only [List.map_cons, hdecode, hkeys]
    · intro j hj
      rcases List.mem_cons.1 hj with rfl | hj
      · exact ⟨hlt, hs, hks⟩
      · obtain ⟨hkj, hin⟩ := hin j hj
        exact ⟨by omega, hin⟩

/-- The key of a token lies after the position that its page resumes after. -/
theorem Resumes.position_lt {k : Key} (hR' : Resumes r stop (some k))
    (hafter : ∀ j ∈ after, j.sort < k.sort) : position r after < k.sort := by
  cases after with
  | none => exact Int.lt_of_lt_of_le (Int.sub_one_lt_iff.2 (Int.le_refl _)) hR'.2.1
  | some j => exact hafter j rfl

/-- One call is answered, of the store as it is, and the changes after it leave a store of which the
next call can be answered. -/
theorem turn_eq_ok (hr : r.Bounded) (hcheck : r.check = .ok ())
    (hlast : Stamp.least ≤ r.stop - r.bucketMillis) {token : Option String} {desk : Desk Memory}
    (hs : desk.store.Sound) (hread : desk.store.Readable)
    (hresume : ({ r with token } : Request).resume = .ok (after, first)) (hf : first < r.stop) (n : Nat) :
    ∃ pg desk' stop, turn p r changes n token desk = (.ok pg, desk') ∧
      desk'.store.Sound ∧ desk'.store.Readable ∧ Shows r p desk.store.items after first stop pg := by
  have hends : Ends _ _ _ (page Memory.backend p { r with token } desk) :=
    page_ends desk.store.serves_readable hr (hs.listable r) hcheck token hresume hf hlast ⟨rfl, hread⟩
  obtain ⟨pg, desk', hpage, ⟨hrows, hread'⟩, stop, hshows⟩ := hends.exists_ok fun _ ⟨_, _, hno⟩ => hno
  unfold turn
  rw [hpage]
  exact ⟨pg, _, stop, rfl, Change.sound_applyAll (hs.congr hrows) _, Change.readable_applyAll hread' _,
    hshows⟩

/-- A call that is accepted leads to a listing without a failing call, whatever the changes. -/
theorem exists_follows (hr : r.Bounded) (hnarrow : r.stop - r.start ≤ Stamp.greatest)
    (hcheck : r.check = .ok ()) (hlast : Stamp.least ≤ r.stop - r.bucketMillis) {n : Nat}
    {token : Option String} {desk : Desk Memory} (hs : desk.store.Sound) (hread : desk.store.Readable)
    (hresume : ({ r with token } : Request).resume = .ok (after, first)) (hf : first < r.stop) :
    ∃ pages, Follows (turn p r changes) (·.token) n token desk pages ∧
      Sweeps r (position r after) first pages := by
  -- the positions of the tokens increase, while a page may show no period
  induction hm : (r.stop - position r after).toNat using Nat.strongRecOn
    generalizing n token desk after first with
  | ind m ih =>
    obtain ⟨pg, desk', stop, hturn, hs', hread', hshows⟩ := turn_eq_ok hr hcheck hlast hs hread hresume hf n
    cases ht : pg.token with
    | none => exact ⟨[pg], .last hturn ht, hshows.sweeps_last ht _⟩
    | some t =>
      obtain ⟨hlt, k, rfl, hR', hafter, -⟩ := hshows.before_end t ht
      have hpos : position r after < k.sort := hR'.position_lt hafter
      have hstep : (r.stop - position r (some k)).toNat < m := by
        have := hR'.2.2.1
        show (r.stop - k.sort).toNat < m
        omega
      rcases resume_token hr hR' hlt with hnext | ⟨hwide, -⟩
      · obtain ⟨pages, hpages, hsweeps⟩ := ih _ hstep hs' hread' hnext hlt rfl
        exact ⟨pg :: pages, .more hturn ht hpages,
          hshows.sweeps_more hr (resumes_of_resume hresume) hR' ht hpos hsweeps⟩
      · omega

theorem decode_of_resume {token : Option String}
    (h : ({ r with token } : Request).resume = .ok (after, first)) :
    token.map (Token.decode r.partition) = after.map .ok := by
  unfold Request.resume at h
  cases token with
  | none =>
    obtain ⟨rfl, -⟩ := Prod.mk.inj (Except.ok.inj h)
    rfl
  | some token =>
    obtain ⟨key, hk, h⟩ := bind_eq_ok.1 h
    obtain ⟨boundary, -, h⟩ := bind_eq_ok.1 h
    obtain ⟨rfl, -⟩ := Prod.mk.inj (Except.ok.inj h)
    exact congrArg some hk

/-- The boundaries from the first period of a page on are those after the position that it resumes
after. -/
theorem Resumes.from_first_iff (hi : 0 < r.increment) (hR : Resumes r first after) (t : Int) :
    (∃ k : ℕ, t = first + k * r.increment) ↔
      (∃ k : ℕ, t = r.start + k * r.increment) ∧ ∀ key ∈ after, key.sort < t := by
  rw [exists_boundary_iff hi, exists_boundary_iff hi]
  have hle := start_le_first hi hR
  have hd := dvd_first_sub hR
  have ht : r.increment ∣ t - first ↔ r.increment ∣ t - r.start := by
    rw [show t - r.start = t - first + (first - r.start) by omega]
    exact (Int.dvd_add_left hd).symm
  constructor
  · rintro ⟨hft, hdvd⟩
    refine ⟨⟨by omega, ht.1 hdvd⟩, fun key hkey => ?_⟩
    obtain rfl := hkey
    have : key.sort < first := by
      rw [hR.2.2.2]
      exact lt_nextBoundary hi
    omega
  · rintro ⟨⟨hst, hdvd⟩, hafter⟩
    refine ⟨?_, ht.2 hdvd⟩
    cases after with
    | none =>
      rw [show first = r.start from hR]
      exact hst
    | some key =>
      have hlt := hafter key rfl
      -- a boundary is the one after the time just before it
      rw [hR.2.2.2, eq_nextBoundary hi hdvd (Int.sub_one_lt_iff.2 (Int.le_refl t)) (by omega)]
      exact nextBoundary_mono hi (by omega)

/-- **A listing skips nothing while the store changes.** It ends, and shows the periods after its first token
without a gap, whatever is saved between its calls. -/
theorem changing_listing_complete (arrivals : List Rollup.Arrival) (p : Paging) (r : Request)
    (hstart : Stamp.Fits r.start) (hstop : Stamp.Fits r.stop)
    (hnarrow : r.stop - r.start ≤ Stamp.greatest) (desk : Desk Memory)
    (hrows : desk.store.rows = (Rollup.History.of arrivals).store.rows) (hread : desk.store.Readable)
    (haccepted : ∃ pg desk', page Memory.backend p r desk = (.ok pg, desk'))
    (changes : Nat → List Change) :
    ∃ (pages : List PeriodPage) (after : Option Key) (keys : List Key),
      Follows (turn p r changes) (·.token) 0 r.token desk pages ∧
      (∀ pages', Follows (turn p r changes) (·.token) 0 r.token desk pages' → pages' = pages) ∧
      r.token.map (Token.decode r.partition) = after.map .ok ∧
      (pages.filterMap (·.token)).map (Token.decode r.partition) = keys.map .ok ∧
      (after.toList ++ keys).Pairwise (fun j k => j.sort < k.sort) ∧
      (∀ k ∈ after.toList ++ keys, r.start ≤ k.sort ∧ k.sort < r.stop) ∧
      let periods := pages.flatMap (·.results)
      periods.Pairwise (fun q q' => q.start < q'.start) ∧
      ∀ t, (∃ q ∈ periods, q.start = t) ↔
        t < r.stop ∧ (∃ k : ℕ, t = r.start + k * r.increment) ∧ ∀ key ∈ after, key.sort < t := by
  obtain ⟨pg, desk', hpage⟩ := haccepted
  have hs : desk.store.Sound := (Rollup.sound_of arrivals).congr hrows
  obtain ⟨after, first, h⟩ := answered_of_page_eq_ok hs hstart hstop rfl hpage
  have hR : Resumes r first after := resumes_of_resume h.resume
  have hi := h.bounded.increment_pos
  obtain ⟨pages, hpages, hsweeps⟩ : ∃ pages, Follows (turn p r changes) (·.token) 0 r.token desk pages ∧
      Sweeps r (position r after) first pages := by
    by_cases hf : first < r.stop
    · exact exists_follows h.bounded hnarrow h.check (h.shows hf).1 hs hread h.resume hf
    · obtain rfl := h.empty (Int.not_lt.1 hf)
      refine ⟨[{}], .last (by unfold turn; rw [hpage]) rfl, ?_, [], rfl, List.Pairwise.nil, ?_⟩
      · exact (Period.starts_of_le (Int.not_lt.1 hf)).symm
      · exact fun _ hk => absurd hk List.not_mem_nil
  obtain ⟨keys, hkeys, hasc, hin⟩ := hsweeps.keys
  refine ⟨pages, after, keys, hpages, fun _ h' => hpages.unique h', decode_of_resume h.resume, hkeys, ?_, ?_,
    Period.pairwise_of_map_start hi hsweeps.starts_eq, fun t => ?_⟩
  · cases after with
    | none => exact hasc
    | some j => exact List.pairwise_cons.2 ⟨fun k hk => (hin k hk).1, hasc⟩
  · intro k hk
    rcases List.mem_append.1 hk with hk | hk
    · obtain rfl := Option.mem_toList.1 hk
      exact ⟨hR.2.1, hR.2.2.1⟩
    · exact (hin k hk).2
  · rw [Period.exists_start_iff hi hsweeps.starts_eq, hR.from_first_iff hi]

/-- A listing from a position at which nothing is stored. After its first page there is new video before
that position, in the next period and in one already shown, on smaller pages of the store. -/
theorem changing_listing_complete_late :
    let arrivals : List Rollup.Arrival :=
      [⟨.increment ⟨"d", .seconds, 3000, 400, .device⟩, ⟨7, 0⟩, {}⟩,
        ⟨.increment ⟨"d", .seconds, 6000, 700, .cloud⟩, ⟨8, 0⟩, {}⟩]
    let late : List Change :=
      [.save ⟨.increment ⟨"d", .seconds, 0, 100, .cloud⟩, ⟨9, 0⟩, {}⟩,
        .save ⟨.increment ⟨"d", .seconds, 4000, 200, .cloud⟩, ⟨9, 0⟩, {}⟩,
        .save ⟨.increment ⟨"d", .seconds, 5000, 300, .cloud⟩, ⟨9, 0⟩, {}⟩, .resize (some 1)]
    let k : Key := ⟨Bucket.partition "d" .seconds, 700⟩
    let r : Request := ⟨"d", .seconds, 500, 8000, 2000, some (Token.encode k)⟩
    let desk : Desk Memory := ⟨(Rollup.History.of arrivals).store, ⟨0, 0⟩⟩
    ∃ (pages : List PeriodPage) (keys : List Key),
      Follows (turn { periodsPerPage := 1 } r fun n => if n = 0 then late else []) (·.token) 0 r.token desk
        pages ∧
      (pages.filterMap (·.token)).map (Token.decode r.partition) = keys.map .ok ∧
      (∀ j ∈ keys, k.sort < j.sort ∧ j.sort < 8000) ∧
      (∃ q ∈ pages.flatMap (·.results), q.start = 6500) ∧
      ¬ ∃ q ∈ pages.flatMap (·.results), q.start = 500 := by
  intro arrivals late k r desk
  have hpage : (page Memory.backend { periodsPerPage := 1 } r desk).1 =
      .ok ⟨[⟨2500, 400, 0, 400⟩], some (Token.encode ⟨"d#SECONDS", 4499⟩)⟩ :=
    eq_ok_of_toOption (by decide +kernel)
  have haccepted : page Memory.backend { periodsPerPage := 1 } r desk =
      (.ok _, (page Memory.backend { periodsPerPage := 1 } r desk).2) := Prod.ext hpage rfl
  have hread : desk.store.Readable := by
    unfold Memory.Readable
    decide +kernel
  obtain ⟨pages, after, keys, hpages, -, hafter, hkeys, hasc, hin, -, hstarts⟩ :=
    changing_listing_complete arrivals { periodsPerPage := 1 } r (by decide) (by decide) (by decide) desk rfl
      hread ⟨_, _, haccepted⟩ fun n => if n = 0 then late else []
  have hdecode : Token.decode k.partition (Token.encode k) = .ok k :=
    Token.decode_encode ⟨by decide, by decide⟩
  obtain rfl : after = some k := by
    cases after with
    | none => exact absurd hafter (Option.some_ne_none _)
    | some j => exact congrArg some (Except.ok.inj ((Option.some.inj hafter).symm.trans hdecode))
  refine ⟨pages, keys, hpages, hkeys, ?_, ?_, ?_⟩
  · intro j hj
    exact ⟨(List.pairwise_cons.1 hasc).1 j hj, (hin j (List.mem_cons_of_mem _ hj)).2⟩
  · refine (hstarts 6500).2 ⟨by decide, ⟨3, by decide⟩, ?_⟩
    rintro j ⟨⟩
    decide
  · intro h
    obtain ⟨-, -, hafter⟩ := (hstarts 500).1 h
    exact absurd (hafter k rfl) (by decide)

end Footage.Listing
