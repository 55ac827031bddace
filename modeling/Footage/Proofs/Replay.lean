import Footage.Proofs.Listing.Chain
import Footage.Proofs.Rollup.Events
import Footage.Proofs.Text.Decimal
import Footage.Replay

/-!
# What a replay writes

A replay is taken apart into its stages: the arguments (`parse?_eq_some_iff`), the events, which are
all accepted or end the replay (`applyAll_cases`), and the pages, which are those of the chain of calls
(`pages_of_chain`). Nothing is written before the listing, and in a range that is no wider than the
greatest stored number a listing whose first call is accepted comes to its end. So a replay writes the
whole listing or nothing (`run_complete`). This is so whatever parser finds the events of the lines.
-/

namespace Footage.Replay

open Footage.Task

variable {σ : Type}

/-! ## Arguments -/

/-- The arguments ask for a listing: there are five besides the flag, and each can be read. -/
def Asks (args : List String) (r : Listing.Request) : Prop :=
  ∃ unit start stop increment,
    args.filter (· ≠ "--skip-invalid") = [r.device, unit, start, stop, increment] ∧
    Granularity.parse? unit = some r.granularity ∧ number? start = some r.start ∧
    number? stop = some r.stop ∧ number? increment = some r.increment ∧ r.token = none

theorem parse?_eq_some_iff {args : List String} {a : Arguments} :
    Arguments.parse? args = some a ↔
      a.lenient = args.contains "--skip-invalid" ∧ Asks args a.request := by
  unfold Arguments.parse? lenientFlag
  constructor
  · intro h
    split at h
    · rename_i device unit start stop increment hargs
      obtain ⟨g, hunit, h⟩ := Option.bind_eq_some_iff.1 h
      obtain ⟨lo, hstart, h⟩ := Option.bind_eq_some_iff.1 h
      obtain ⟨hi, hstop, h⟩ := Option.bind_eq_some_iff.1 h
      obtain ⟨length, hincrement, h⟩ := Option.bind_eq_some_iff.1 h
      obtain rfl := Option.some.inj h
      exact ⟨rfl, unit, start, stop, increment, hargs, hunit, hstart, hstop, hincrement, rfl⟩
    · exact absurd h (by simp)
  · obtain ⟨lenient, device, g, start, stop, increment, token⟩ := a
    rintro ⟨rfl, unit, start', stop', increment', hargs, hunit, hstart, hstop, hincrement, rfl⟩
    rw [hargs]
    simp only [hunit, hstart, hstop, hincrement]
    rfl

theorem fits_of_number? {s : String} {n : Int} (h : number? s = some n) : Stamp.Fits n :=
  Decimal.fits_of_read (eq_ok_of_toOption h)

/-! ## Events -/

/-- An event that reaches a store which fails no call, while the clock stands still. -/
def arrival (e : Event) : Rollup.Arrival := ⟨e, ⟨0, 0⟩, {}⟩

/-- The history of events that are applied one after the other. -/
def history (es : List Event) : Rollup.History := .of (es.map arrival)

theorem length_receipts_foldl_le (as : List Rollup.Arrival) (h : Rollup.History) :
    (as.foldl Rollup.History.next h).receipts.length ≤ h.receipts.length + as.length := by
  induction as generalizing h with
  | nil => exact Nat.le_refl _
  | cons a as ih =>
    have hnext : (h.next a).receipts.length ≤ h.receipts.length + 1 := by
      unfold Rollup.History.next
      split
      · simp
      · simp
    have := ih (h.next a)
    rw [List.foldl_cons, List.length_cons]
    omega

/-- Events are all accepted, or the first one that is not ends their application. -/
theorem applyAll_cases (es : List Event) {h : Rollup.History} (hf : h.store.faults = {}) :
    let h' := (es.map arrival).foldl Rollup.History.next h
    (applyAll Memory.backend es ⟨h.store, ⟨0, 0⟩⟩ = (.ok (), ⟨h'.store, ⟨0, 0⟩⟩) ∧
      h'.receipts.map (·.event) = h.receipts.map (·.event) ++ es ∧ h'.store.faults = {}) ∨
    (∃ f desk, applyAll Memory.backend es ⟨h.store, ⟨0, 0⟩⟩ = (.error f, desk)) ∧
      h'.receipts.length < h.receipts.length + es.length := by
  induction es generalizing h with
  | nil => exact .inl ⟨rfl, (List.append_nil _).symm, hf⟩
  | cons e es ih =>
    intro h'
    have hdesk : h.desk (arrival e) = ⟨h.store, ⟨0, 0⟩⟩ := by
      unfold Rollup.History.desk arrival
      rw [← hf]
    rcases Rollup.save_cases e (h.desk (arrival e)) with ⟨old, b, ha⟩ | ⟨f, clock, hrejected⟩
    · have hnext := Rollup.History.next_of_accepted (a := arrival e) ha
      have hanswer := ha.answer
      rw [hdesk] at hanswer hnext
      have hfold : h' = (es.map arrival).foldl Rollup.History.next
          ⟨h.receipts ++ [⟨e, 0, b⟩], h.store.store b.item⟩ := by
        show ((arrival e :: es.map arrival).foldl Rollup.History.next h) = _
        rw [List.foldl_cons, hnext]
        rfl
      have happly : applyAll Memory.backend (e :: es) ⟨h.store, ⟨0, 0⟩⟩ =
          applyAll Memory.backend es ⟨h.store.store b.item, ⟨0, 0⟩⟩ := by
        rw [applyAll, bind_apply, hanswer]
        rfl
      rw [happly, hfold]
      rcases ih (h := ⟨h.receipts ++ [⟨e, 0, b⟩], h.store.store b.item⟩) hf with
        ⟨hok, hevents, hfaults⟩ | ⟨hfailed, hlt⟩
      · refine .inl ⟨hok, ?_, hfaults⟩
        rw [hevents]
        simp
      · refine .inr ⟨hfailed, ?_⟩
        rw [List.length_append, List.length_singleton] at hlt
        rw [List.length_cons]
        omega
    · have hnext : h.next (arrival e) = ⟨h.receipts, (h.desk (arrival e)).store⟩ := by
        unfold Rollup.History.next
        rw [show (arrival e).event = e from rfl, hrejected]
      rw [hdesk] at hrejected
      refine .inr ⟨⟨f, _, by rw [applyAll, bind_apply, hrejected]⟩, ?_⟩
      have hreceipts : (h.next (arrival e)).receipts = h.receipts := by rw [hnext]
      have hle := length_receipts_foldl_le (es.map arrival) (h.next (arrival e))
      rw [List.length_map, hreceipts] at hle
      exact Nat.lt_succ_of_le hle

/-! ## Pages -/

/-- The next page, and those after it. -/
theorem pages_succ (b : Backend σ) (p : Paging) (r : Listing.Request) (fuel : Nat) (token : Option String)
    (desk : Desk σ) :
    pages b p r (fuel + 1) token desk = match Listing.page b p { r with token } desk with
      | (.error _, desk') => (failed, desk')
      | (.ok pg, desk') => match pg.token with
        | none => (⟨0, [pg]⟩, desk')
        | some t =>
          let rest := pages b p r fuel (some t) desk'
          ({ rest.1 with pages := pg :: rest.1.pages }, rest.2) := by
  rw [pages]
  show StateT.bind (m := Id) (Listing.page b p { r with token }) _ desk = _
  unfold StateT.bind
  rcases Listing.page b p { r with token } desk with ⟨answer, desk'⟩
  cases answer with
  | error => rfl
  | ok pg =>
    obtain ⟨results, token⟩ := pg
    cases token <;> rfl

/-- A replay writes the pages of a chain without a failing call. -/
theorem pages_of_chain {b : Backend σ} {p : Paging} {r : Listing.Request} {token : Option String}
    {desk : Desk σ} {pgs : List PeriodPage} {failure : Option Failure}
    (h : Listing.Chain b p r token desk pgs failure) (hf : failure = none) {fuel : Nat}
    (hfuel : pgs.length ≤ fuel) : (pages b p r fuel token desk).1 = ⟨0, pgs⟩ := by
  induction h generalizing fuel with
  | failed h => exact absurd hf (by simp)
  | last h hend =>
    obtain ⟨fuel, rfl⟩ := Nat.exists_eq_add_of_le' hfuel
    rw [List.length_singleton, pages_succ, h]
    simp only [hend]
  | more h ht rest ih =>
    obtain ⟨fuel, rfl⟩ := Nat.exists_eq_add_of_le' hfuel
    rw [List.length_cons, ← Nat.add_assoc, pages_succ, h]
    have hrest := ih hf (Nat.le_add_left _ fuel)
    simp only [ht]
    rw [hrest]

/-! ## The whole replay -/

/-- All that a replay needs: arguments that can be read and ask for a listing, lines that can be read,
and events that are all accepted. -/
structure Succeeds (parse? : String → Option Event) (args : List String) (input : List UInt8)
    (r : Listing.Request) (es : List Event) : Prop where
  asks : Asks args r
  increment_pos : 0 < r.increment
  dvd_increment : r.granularity.millis ∣ r.increment
  start_lt : r.start < r.stop
  least_le : Stamp.least ≤ r.stop - r.granularity.millis
  read : ∃ skipped, Journal.readBy parse? (args.contains "--skip-invalid") input = .ok ⟨es, skipped⟩
  accepted : (history es).receipts.map (·.event) = es

variable {parse? : String → Option Event} {args : List String} {settings : Settings} {input : List UInt8}
  {r : Listing.Request} {es : List Event}

theorem Asks.fits (h : Asks args r) : Stamp.Fits r.start ∧ Stamp.Fits r.stop := by
  obtain ⟨unit, start, stop, increment, -, -, hstart, hstop, -⟩ := h
  exact ⟨fits_of_number? hstart, fits_of_number? hstop⟩

theorem Asks.without_token (h : Asks args r) : ({ r with token := none } : Listing.Request) = r := by
  obtain ⟨unit, start, stop, increment, -, -, -, -, -, htoken⟩ := h
  rw [← htoken]

/-- A replay of events that can be read. -/
theorem runBy_eq (hkind : settings.store.kind = .memory) (hasks : Asks args r) {skipped : Nat}
    (hread : Journal.readBy parse? (args.contains "--skip-invalid") input = .ok ⟨es, skipped⟩) :
    runBy parse? args (some settings) input = match applyAll Memory.backend es ⟨{}, ⟨0, 0⟩⟩ with
      | (.ok (), desk) => (pages Memory.backend settings.paging r (maxPages r) none desk).1
      | (.error _, _) => failed := by
  have hparse : Arguments.parse? args = some ⟨args.contains "--skip-invalid", r⟩ :=
    parse?_eq_some_iff.2 ⟨rfl, hasks⟩
  have hinit : StorePair.init settings.store = .ok {} := by
    unfold StorePair.init
    rw [hkind]
  unfold runBy
  rw [hparse]
  simp only [hinit, hread]
  unfold ExceptT.run
  rcases applyAll Memory.backend es ⟨{}, ⟨0, 0⟩⟩ with ⟨answer, desk⟩
  cases answer <;> rfl

/-- A listing whose first page is answered was asked for properly. -/
theorem of_page_eq_ok {p : Paging} {desk desk' : Desk Memory} (hs : desk.store.Sound) (hasks : Asks args r)
    {pg : PeriodPage} (h : Listing.page Memory.backend p r desk = (.ok pg, desk')) :
    0 < r.increment ∧ r.granularity.millis ∣ r.increment ∧ r.start < r.stop ∧
      Stamp.least ≤ r.stop - r.granularity.millis := by
  obtain ⟨hstart, hstop⟩ := hasks.fits
  obtain ⟨after, first, hanswered⟩ := Listing.answered_of_page_eq_ok hs hstart hstop rfl h
  obtain ⟨hi, hd, hlt⟩ := Listing.check_eq_ok.1 hanswered.check
  have hresume := hanswered.resume
  rw [← hasks.without_token] at hresume
  obtain ⟨-, rfl⟩ := Prod.mk.inj (Except.ok.inj hresume)
  exact ⟨hi, hd, hlt, (hanswered.shows hlt).1⟩

/-- Where anything is missing, nothing is written. -/
theorem runBy_eq_failed (hkind : settings.store.kind = .memory)
    (hno : ∀ r es, ¬ Succeeds parse? args input r es) :
    runBy parse? args (some settings) input = failed := by
  cases hparse : Arguments.parse? args with
  | none =>
    unfold runBy
    rw [hparse]
  | some a =>
    obtain ⟨hlenient, hasks⟩ := parse?_eq_some_iff.1 hparse
    cases hread : Journal.readBy parse? (args.contains "--skip-invalid") input with
    | error fault =>
      unfold runBy
      rw [hparse]
      simp only [hlenient, hread]
      cases StorePair.init settings.store <;> rfl
    | ok batch =>
      rw [runBy_eq hkind hasks hread]
      rcases applyAll_cases batch.events (h := {}) rfl with ⟨hok, hevents, -⟩ | ⟨⟨f, desk, hfailed⟩, -⟩
      · rw [show applyAll Memory.backend batch.events ⟨{}, ⟨0, 0⟩⟩ = _ from hok]
        have hs : (history batch.events).store.Sound := Rollup.sound_of _
        rcases hpage : Listing.page Memory.backend settings.paging a.request
          ⟨(history batch.events).store, ⟨0, 0⟩⟩ with ⟨answer, desk'⟩
        cases answer with
        | error f =>
          show (pages Memory.backend settings.paging a.request (maxPages a.request) none
            ⟨(history batch.events).store, ⟨0, 0⟩⟩).1 = failed
          unfold maxPages
          rw [pages_succ, hasks.without_token, hpage]
        | ok pg =>
          obtain ⟨hi, hd, hlt, hlast⟩ := of_page_eq_ok hs hasks hpage
          exact absurd ⟨hasks, hi, hd, hlt, hlast, ⟨batch.skipped, hread⟩, hevents⟩
            (hno a.request batch.events)
      · rw [show applyAll Memory.backend batch.events ⟨{}, ⟨0, 0⟩⟩ = _ from hfailed]

/-- The video of a period is what the events leave to the bucket starts in it. -/
theorem sum_bucketsOf (hes : (history es).receipts.map (·.event) = es) (l : Location) (t : Int) :
    (((Listing.bucketsOf (history es).store r t).map (·.density l)).sum : Nat) =
      ∑ s ∈ Finset.Ico t (min (t + r.increment) (r.stop - r.granularity.millis + 1)),
        Rollup.ledger l (Rollup.eventsOf es r.device r.granularity s) := by
  have hbs : Listing.bucketsOf (history es).store r t =
      ((history es).store.buckets r.device r.granularity).filter fun b =>
        t ≤ b.start ∧ b.start < min (t + r.increment) (r.stop - r.granularity.millis + 1) := by
    refine List.filter_congr fun b _ => decide_eq_decide.2 ?_
    unfold Listing.Request.bucketMillis
    omega
  rw [Nat.cast_list_sum, List.map_map, hbs]
  exact Rollup.sum_density_eq hes r.device r.granularity l _ _

/-- The video of a listed period. -/
theorem density_holding (hes : (history es).receipts.map (·.event) = es) (t : Int) :
    let q := Period.holding r.increment (Listing.listed r (history es).store.items) t
    let held := fun l => ∑ s ∈ Finset.Ico t (min (t + r.increment) (r.stop - r.granularity.millis + 1)),
      Rollup.ledger l (Rollup.eventsOf es r.device r.granularity s)
    (q.cloudDensity : Int) = held .cloud ∧ (q.deviceDensity : Int) = held .device ∧
      (q.density : Int) = held .cloud + held .device := by
  have hcloud := sum_bucketsOf (r := r) hes .cloud t
  have hdevice := sum_bucketsOf (r := r) hes .device t
  have htotal : ((Listing.bucketsOf (history es).store r t).map (·.total)).sum =
      ((Listing.bucketsOf (history es).store r t).map (·.density .cloud)).sum +
        ((Listing.bucketsOf (history es).store r t).map (·.density .device)).sum := List.sum_map_add
  rw [Listing.holding_listed_eq, Period.foldl_add]
  simp only [Period.empty, Nat.zero_add, htotal, Nat.cast_add]
  exact ⟨hcloud, hdevice, congrArg₂ _ hcloud hdevice⟩

/-- A replay that has all that it needs writes the pages of the whole listing. -/
theorem Succeeds.exists_pages (h : Succeeds parse? args input r es) (hkind : settings.store.kind = .memory)
    (hnarrow : r.stop - r.start ≤ Stamp.greatest) :
    ∃ pgs, runBy parse? args (some settings) input = ⟨0, pgs⟩ ∧
      Listing.Chain Memory.backend settings.paging r none ⟨(history es).store, ⟨0, 0⟩⟩ pgs none ∧
      Listing.Lists r (history es).store.items r.start pgs none := by
  obtain ⟨hstart, hstop⟩ := h.asks.fits
  obtain ⟨skipped, hread⟩ := h.read
  rcases applyAll_cases es (h := {}) rfl with ⟨hok, -, hfaults⟩ | ⟨-, hlt⟩
  · have hcheck : r.check = .ok () :=
      Listing.check_eq_ok.2 ⟨h.increment_pos, h.dvd_increment, h.start_lt⟩
    have hs : (history es).store.Sound := Rollup.sound_of _
    have hrows : (⟨(history es).store, ⟨0, 0⟩⟩ : Desk Memory).store.rows = (history es).store.rows := rfl
    have hreadable : (history es).store.Readable := by
      unfold Memory.Readable
      rw [show (history es).store.faults = {} from hfaults]
      exact ⟨rfl, rfl⟩
    obtain ⟨pgs, failure, hchain, hlists, hnofail⟩ := Listing.chain_of_sound hs
      ⟨h.increment_pos, hstart.1, hstop.2⟩ hcheck h.least_le settings.paging hrows
    obtain rfl := hnofail hreadable hnarrow
    refine ⟨pgs, ?_, hchain, hlists⟩
    rw [runBy_eq hkind h.asks hread, show applyAll Memory.backend es ⟨{}, ⟨0, 0⟩⟩ = _ from hok]
    exact pages_of_chain hchain rfl (Nat.le_trans hlists.length_le Period.length_starts_le)
  · have hlength := congrArg List.length h.accepted
    rw [List.length_map] at hlength
    have hless : (history es).receipts.length < 0 + es.length := hlt
    omega

/-- **A replay writes the whole listing or nothing**, whatever parser finds its events: each period of the range
once, with what the events leave to its buckets, or no page and a failure. -/
theorem run_complete (parse? : String → Option Event) (args : List String) (settings : Settings)
    (input : List UInt8)
    (hkind : settings.store.kind = .memory)
    (hnarrow : ∀ r, Asks args r → r.stop - r.start ≤ Stamp.greatest) :
    (∀ r es, Succeeds parse? args input r es →
      ∃ pages last, runBy parse? args (some settings) input = ⟨0, pages ++ [last]⟩ ∧
        last.token = none ∧ (∀ pg ∈ pages, pg.token ≠ none) ∧
        let periods := (pages ++ [last]).flatMap (·.results)
        periods.Pairwise (fun q q' => q.start < q'.start) ∧
        (∀ t, (∃ q ∈ periods, q.start = t) ↔ t < r.stop ∧ ∃ k : ℕ, t = r.start + k * r.increment) ∧
        ∀ q ∈ periods,
          let starts := Finset.Ico q.start
            (min (q.start + r.increment) (r.stop - r.granularity.millis + 1))
          let held := fun l => ∑ s ∈ starts, Rollup.ledger l (Rollup.eventsOf es r.device r.granularity s)
          (q.cloudDensity : Int) = held .cloud ∧ (q.deviceDensity : Int) = held .device ∧
          (q.density : Int) = held .cloud + held .device) ∧
    ((∀ r es, ¬ Succeeds parse? args input r es) →
      runBy parse? args (some settings) input = ⟨1, []⟩) := by
  refine ⟨fun r es h => ?_, runBy_eq_failed hkind⟩
  obtain ⟨pgs, hrun, hchain, hlists⟩ := h.exists_pages hkind (hnarrow r h.asks)
  obtain ⟨init, last, rfl, hlast, hinit⟩ := hchain.exists_last rfl
  have hresults := hlists.results_eq rfl
  have hstarts := Period.map_start_holding r.increment (Listing.listed r (history es).store.items)
    (Period.starts r.increment r.start r.stop)
  rw [← hresults] at hstarts
  refine ⟨init, last, hrun, hlast, hinit, Period.pairwise_of_map_start h.increment_pos hstarts,
    Period.exists_start_iff h.increment_pos hstarts, fun q hq => ?_⟩
  rw [hresults] at hq
  obtain ⟨t, -, rfl⟩ := List.mem_map.1 hq
  rw [Period.start_holding]
  exact density_holding h.accepted t

/-- Two events of one bucket, and a line between them that is none. It is passed over, or ends the replay
where the flag is not given. -/
theorem run_complete_lenient :
    let settings : Settings := { paging := { periodsPerPage := 1 } }
    let input := Text.bytes ("[\"increment\",\"d\",\"SECONDS\",1000,400,\"CLOUD\"]\nx\n" ++
      "[\"catchup\",\"d\",\"SECONDS\",1000,100,\"DEVICE\"]\n")
    (∃ pages last, run ["d", "SECONDS", "0", "--skip-invalid", "2500", "1000"] (some settings) input =
        ⟨0, pages ++ [last]⟩ ∧ last.token = none ∧
      ∃ q ∈ (pages ++ [last]).flatMap (·.results), q.start = 1000 ∧ (q.cloudDensity : Int) = 300) ∧
    run ["d", "SECONDS", "0", "2500", "1000"] (some settings) input = ⟨1, []⟩ := by
  intro settings input
  let r : Listing.Request := ⟨"d", .seconds, 0, 2500, 1000, none⟩
  let es : List Event :=
    [.increment ⟨"d", .seconds, 1000, 400, .cloud⟩, .catchup ⟨"d", .seconds, 1000, 100, .device⟩]
  have hnarrow : ∀ args r', Arguments.parse? args = some ⟨args.contains "--skip-invalid", r⟩ →
      Asks args r' → r'.stop - r'.start ≤ Stamp.greatest := by
    intro args r' hparse h
    have h' := parse?_eq_some_iff (a := ⟨args.contains "--skip-invalid", r'⟩).2 ⟨rfl, h⟩
    obtain ⟨-, rfl⟩ := Arguments.mk.inj (Option.some.inj (hparse.symm.trans h'))
    decide
  have hparse : Arguments.parse? ["d", "SECONDS", "0", "--skip-invalid", "2500", "1000"] = some ⟨true, r⟩ := by
    decide +kernel
  have hparse' : Arguments.parse? ["d", "SECONDS", "0", "2500", "1000"] = some ⟨false, r⟩ := by
    decide +kernel
  constructor
  · obtain ⟨hall, -⟩ := run_complete Event.parse?
      ["d", "SECONDS", "0", "--skip-invalid", "2500", "1000"] settings input rfl fun r' => hnarrow _ r' hparse
    have hsucceeds :
        Succeeds Event.parse? ["d", "SECONDS", "0", "--skip-invalid", "2500", "1000"] input r es :=
      ⟨(parse?_eq_some_iff.1 hparse).2, by decide, by decide, by decide, by decide,
        ⟨1, eq_ok_of_toOption (by decide +kernel)⟩, by decide +kernel⟩
    obtain ⟨pages, last, hrun, hlast, -, -, hstarts, hheld⟩ := hall r es hsucceeds
    obtain ⟨q, hq, hqs⟩ := (hstarts 1000).2 ⟨by decide, 1, by decide⟩
    obtain ⟨hcloud, -⟩ := hheld q hq
    refine ⟨pages, last, hrun, hlast, q, hq, hqs, ?_⟩
    rw [hcloud, hqs]
    decide +kernel
  · obtain ⟨-, hnothing⟩ := run_complete Event.parse? ["d", "SECONDS", "0", "2500", "1000"] settings input rfl
      fun r' => hnarrow _ r' hparse'
    refine hnothing fun r' es' h => ?_
    obtain ⟨skipped, hread⟩ := h.read
    have hunread : (Journal.read false input).toOption = none := by decide +kernel
    rw [show Journal.read false input = _ from hread] at hunread
    exact absurd hunread (by simp [Except.toOption])

end Footage.Replay
