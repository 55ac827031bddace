import Footage.Proofs.Archive.History

/-!
# A record and its reports

The receipts of a key are all that its record depends on. `Accounts` says how: what it says is what
the deciding report said, the last one of the cloud or else the last one of the device, and its
stamps are those of the first report and of the last that changed anything. Every history keeps this.
Of all reports only those of the cloud decide what a record in the cloud says (`inCloud_of`).
-/

namespace Footage.Archive

/-- The reports of a location. -/
def reportsOf (l : Location) (rs : List Receipt) : List Receipt := rs.filter (·.location = l)

/-- The report that decides what the record says. -/
def deciding (rs : List Receipt) : Option Receipt :=
  (reportsOf .cloud rs).getLast?.or (reportsOf .device rs).getLast?

section

variable {rs : List Receipt} {r : Receipt}

theorem location_of_mem_reportsOf {l : Location} (h : r ∈ reportsOf l rs) : r.location = l :=
  of_decide_eq_true (List.mem_filter.1 h).2

theorem location_deciding (h : deciding rs = some r) :
    r.location = .cloud ↔ reportsOf .cloud rs ≠ [] := by
  unfold deciding at h
  rcases hc : (reportsOf .cloud rs).getLast? with _ | c
  · rw [hc, Option.none_or] at h
    have hd := location_of_mem_reportsOf (List.mem_of_getLast? h)
    rw [List.getLast?_eq_none_iff.1 hc, hd]
    simp
  · rw [hc, Option.some_or] at h
    obtain rfl := Option.some.inj h
    have hmem := List.mem_of_getLast? hc
    exact ⟨fun _ => List.ne_nil_of_mem hmem, fun _ => location_of_mem_reportsOf hmem⟩

theorem deciding_snoc_of_cloud (h : r.location = .cloud) : deciding (rs ++ [r]) = some r := by
  simp [deciding, reportsOf, h]

theorem deciding_snoc_of_nil (hc : reportsOf .cloud rs = []) : deciding (rs ++ [r]) = some r := by
  cases hl : r.location with
  | cloud => exact deciding_snoc_of_cloud hl
  | device =>
    have hnil : reportsOf .cloud (rs ++ [r]) = [] := by
      rw [reportsOf, List.filter_append, ← reportsOf, hc]
      simp [hl]
    have hlast : reportsOf .device (rs ++ [r]) = reportsOf .device rs ++ [r] := by
      simp [reportsOf, hl]
    unfold deciding
    rw [hnil, hlast, List.getLast?_concat]
    rfl

theorem deciding_snoc_of_ne_nil (h : r.location = .device) (hc : reportsOf .cloud rs ≠ []) :
    deciding (rs ++ [r]) = deciding rs := by
  obtain ⟨c, hlast⟩ := Option.ne_none_iff_exists'.1 (mt List.getLast?_eq_none_iff.1 hc)
  have hsame : reportsOf .cloud (rs ++ [r]) = reportsOf .cloud rs := by simp [reportsOf, h]
  unfold deciding
  rw [hsame, hlast, Option.some_or, Option.some_or]

end

/-- The receipts account for a record. -/
structure Accounts (p : Paging) (device : String) (timestamp : Int) (rs : List Receipt) (f : Fragment) :
    Prop where
  device_eq : f.device = device
  timestamp_eq : f.timestamp = timestamp
  decided : (deciding rs).map (fun r => (r.duration, r.location)) = some (f.duration, f.location)
  createdAt : rs.head?.map (·.now) = some f.createdAt
  lastUpdated : (rs.filter (·.Changed)).getLast?.map (·.now) = some f.lastUpdated
  expires_eq : f.expires = Fragment.expiry timestamp p.retentionDays

/-- The receipts account for what a store holds under a key. -/
def Reported (p : Paging) (device : String) (timestamp : Int) (rs : List Receipt) :
    Option Fragment → Prop
  | none => rs = []
  | some f => Accounts p device timestamp rs f

section

variable {p : Paging} {a : Arrival} {rs : List Receipt} {f : Fragment} {device : String}
  {timestamp : Int}

theorem Accounts.ne_nil (h : Accounts p device timestamp rs f) : rs ≠ [] := by
  rintro rfl
  exact absurd h.createdAt (by simp)

theorem Accounts.location_eq (h : Accounts p device timestamp rs f) :
    f.location = .cloud ↔ reportsOf .cloud rs ≠ [] := by
  obtain ⟨r, hr, hsays⟩ := Option.map_eq_some_iff.1 h.decided
  rw [← location_deciding hr, ← (Prod.mk.inj hsays).2]

theorem Accounts.cloud_iff (h : Accounts p device timestamp rs f) :
    f.location = .cloud ↔ ∃ r ∈ rs, r.location = .cloud := by
  rw [h.location_eq, ne_eq, reportsOf, List.filter_eq_nil_iff]
  simp

theorem Accounts.duration_eq (h : Accounts p device timestamp rs f) :
    some f.duration = (deciding rs).map (·.duration) := by
  obtain ⟨r, hr, hsays⟩ := Option.map_eq_some_iff.1 h.decided
  rw [hr, ← (Prod.mk.inj hsays).1]
  rfl

theorem Reported.isSome_iff {old : Option Fragment} (h : Reported p device timestamp rs old) :
    old.isSome ↔ rs ≠ [] := by
  cases old with
  | none => simp [show rs = [] from h]
  | some f => simp [Accounts.ne_nil h]

theorem Accounts.head?_snoc (h : Accounts p device timestamp rs f) (r : Receipt) :
    (rs ++ [r]).head?.map (·.now) = some f.createdAt := by
  obtain ⟨s, ss, rfl⟩ := List.exists_cons_of_ne_nil h.ne_nil
  exact h.createdAt

/-- The receipt of a report that finds this record. -/
abbrev receiptOn (p : Paging) (a : Arrival) (old : Option Fragment) : Receipt :=
  ⟨a.device, a.timestamp, a.duration, a.location, a.clock.now, old, History.outcome p a old⟩

/-- The first report makes the record. -/
theorem accounts_first : Accounts p a.device a.timestamp [receiptOn p a none]
    (revise p a.device a.timestamp a.duration a.location none a.clock.now) := by
  have hchanged : (receiptOn p a none).Changed := by
    simp [Receipt.Changed, History.outcome_of_not_keeps (not_keeps_none _ _)]
  refine ⟨rfl, rfl, ?_, rfl, ?_, rfl⟩
  · rw [show [receiptOn p a none] = [] ++ [receiptOn p a none] from rfl, deciding_snoc_of_nil rfl]
    rfl
  · rw [List.filter_cons_of_pos (by simpa using hchanged)]
    rfl

/-- A report that keeps the record decides nothing else. -/
theorem Accounts.keep (h : Accounts p a.device a.timestamp rs f)
    (hk : Keeps (some f) a.duration a.location) :
    Accounts p a.device a.timestamp (rs ++ [receiptOn p a (some f)]) f := by
  have hsame : ¬ (receiptOn p a (some f)).Changed := by
    simp [Receipt.Changed, History.outcome_of_keeps hk]
  refine ⟨h.device_eq, h.timestamp_eq, ?_, h.head?_snoc _, ?_, h.expires_eq⟩
  · have hloc := h.location_eq
    obtain ⟨g, hg, hkeep⟩ := hk
    obtain rfl := Option.some.inj hg
    by_cases hc : reportsOf .cloud rs = []
    · -- without a report of the cloud the record is that of the device, so it says the same
      have hdev : f.location ≠ .cloud := fun hf => hloc.1 hf hc
      rw [deciding_snoc_of_nil hc]
      rcases hkeep with ⟨hd, hl⟩ | ⟨hf, -⟩
      · rw [hd, hl]
        rfl
      · exact absurd hf hdev
    · have hcloud := hloc.2 hc
      cases hl : a.location with
      | device =>
        rw [deciding_snoc_of_ne_nil hl hc]
        exact h.decided
      | cloud =>
        rw [deciding_snoc_of_cloud hl]
        rcases hkeep with ⟨hd, -⟩ | ⟨-, hdev⟩
        · rw [hd, hcloud]
          simp [hl]
        · exact absurd (hl.symm.trans hdev) (by simp)
  · rw [List.filter_append, List.filter_cons_of_neg (by simpa using hsame), List.filter_nil,
      List.append_nil]
    exact h.lastUpdated

/-- A report that revises the record decides what it says. -/
theorem Accounts.revise (h : Accounts p a.device a.timestamp rs f)
    (hk : ¬ Keeps (some f) a.duration a.location) :
    Accounts p a.device a.timestamp (rs ++ [receiptOn p a (some f)])
      (revise p a.device a.timestamp a.duration a.location (some f) a.clock.now) := by
  have hnot : ¬ (f.Says a.duration a.location ∨ f.location = .cloud ∧ a.location = .device) :=
    fun h => hk ⟨f, rfl, h⟩
  have hchanged : (receiptOn p a (some f)).Changed := by
    unfold Receipt.Changed receiptOn
    rw [History.outcome_of_not_keeps hk]
    intro hsame
    obtain ⟨hd, hl⟩ := Prod.mk.inj (Option.some.inj hsame)
    exact hnot (.inl ⟨hd, hl⟩)
  refine ⟨rfl, rfl, ?_, h.head?_snoc _, ?_, rfl⟩
  · have hdecided : deciding (rs ++ [receiptOn p a (some f)]) = some (receiptOn p a (some f)) := by
      cases hl : a.location with
      | cloud => exact deciding_snoc_of_cloud hl
      | device =>
        exact deciding_snoc_of_nil (Decidable.not_not.1 fun hc => hnot (.inr ⟨h.location_eq.2 hc, hl⟩))
    rw [hdecided]
    rfl
  · rw [List.filter_append, List.filter_cons_of_pos (by simpa using hchanged), List.filter_nil,
      List.getLast?_concat]
    rfl

/-- An accepted report is accounted for. -/
theorem Reported.snoc {old : Option Fragment} (h : Reported p a.device a.timestamp rs old) :
    Reported p a.device a.timestamp (rs ++ [receiptOn p a old]) (History.outcome p a old) := by
  by_cases hk : Keeps old a.duration a.location
  · have hout := History.outcome_of_keeps (p := p) hk
    obtain ⟨f, hf, -⟩ := id hk
    obtain rfl := Option.mem_def.1 hf
    rw [hout]
    exact Accounts.keep h hk
  · rw [History.outcome_of_not_keeps hk]
    cases old with
    | none =>
      obtain rfl : rs = [] := h
      exact accounts_first
    | some f => exact Accounts.revise h hk

end

/-! ## Every history is accounted for -/

/-- The receipts of each key account for what a store holds under it. -/
def History.Reported (p : Paging) (h : History) : Prop :=
  ∀ device timestamp, ∃ old, h.store.record device timestamp = .ok old ∧
    Archive.Reported p device timestamp (h.receiptsOf device timestamp) old

section

variable {p : Paging} {a : Arrival} {h h' : History} {device : String} {timestamp : Int}

theorem receiptsOf_snoc (rs : List Receipt) (m m' : Memory) (r : Receipt) :
    (History.mk (rs ++ [r]) m').receiptsOf device timestamp =
      if r.device = device ∧ r.timestamp = timestamp
      then (History.mk rs m).receiptsOf device timestamp ++ [r]
      else (History.mk rs m).receiptsOf device timestamp := by
  unfold History.receiptsOf
  by_cases hr : r.device = device ∧ r.timestamp = timestamp <;> simp [hr]

theorem reported_step (hr : h.Reported p) (hs : History.Step p h a h') : h'.Reported p := by
  intro device timestamp
  obtain ⟨old', hold', hrep⟩ := hr device timestamp
  cases hs with
  | @accepted old store stored possible after others =>
    by_cases hk : a.device = device ∧ a.timestamp = timestamp
    · obtain ⟨rfl, rfl⟩ := hk
      obtain rfl := Except.ok.inj (stored.symm.trans hold')
      refine ⟨_, after, ?_⟩
      rw [receiptsOf_snoc h.receipts h.store, if_pos ⟨rfl, rfl⟩]
      exact Reported.snoc hrep
    · refine ⟨old', (others device timestamp hk).trans hold', ?_⟩
      rw [receiptsOf_snoc h.receipts h.store, if_neg hk]
      exact hrep
  | failed impossible same => exact ⟨old', (same device timestamp).trans hold', hrep⟩

theorem reported_of (p : Paging) (arrivals : List Arrival) : (History.of p arrivals).Reported p :=
  History.of_induct (P := History.Reported p) (fun _ _ => ⟨none, rfl, rfl⟩)
    (fun _ _ _ hr hs => reported_step hr hs) arrivals

/-! ## What the reports of the cloud decide -/

/-- The duration of a record in the cloud. -/
def inCloud (old : Option Fragment) : Option Nat :=
  old.bind fun f => if f.location = .cloud then some f.duration else none

theorem inCloud_eq_some {old : Option Fragment} {d : Nat} :
    inCloud old = some d ↔ ∃ f, old = some f ∧ f.location = .cloud ∧ f.duration = d := by
  cases old with
  | none => simp [inCloud]
  | some f => by_cases h : f.location = .cloud <;> simp [inCloud, h]

/-- What an arrival does to the duration of a record in the cloud. -/
def cloudStep (device : String) (timestamp : Int) (d : Option Nat) (a : Arrival) : Option Nat :=
  if (a.device = device ∧ a.timestamp = timestamp) ∧ a.location = .cloud ∧ a.faults.get = false ∧
    a.faults.put = false ∧ (a.duration : Int) ≤ Stamp.greatest
  then some a.duration else d

/-- A report of the device never changes a record in the cloud. -/
theorem inCloud_outcome_of_device {old : Option Fragment} (hl : a.location = .device) :
    inCloud (History.outcome p a old) = inCloud old := by
  by_cases hk : Keeps old a.duration a.location
  · rw [History.outcome_of_keeps hk]
  · rw [History.outcome_of_not_keeps hk]
    have hnone : inCloud old = none := by
      refine Option.eq_none_iff_forall_ne_some.2 fun d hd => hk ?_
      obtain ⟨f, rfl, hf, -⟩ := inCloud_eq_some.1 hd
      exact ⟨f, rfl, .inr ⟨hf, hl⟩⟩
    rw [hnone]
    simp [inCloud, revise, hl]

/-- An accepted report of the cloud leaves its duration. -/
theorem inCloud_outcome_of_cloud {old : Option Fragment} (hl : a.location = .cloud) :
    inCloud (History.outcome p a old) = some a.duration := by
  by_cases hk : Keeps old a.duration a.location
  · rw [History.outcome_of_keeps hk]
    obtain ⟨f, hf, ⟨hd, hfl⟩ | ⟨-, hdev⟩⟩ := hk
    · exact inCloud_eq_some.2 ⟨f, hf, hfl.trans hl, hd⟩
    · exact absurd (hl.symm.trans hdev) (by simp)
  · rw [History.outcome_of_not_keeps hk]
    simp [inCloud, revise, hl]

theorem inCloud_step {old : Option Fragment} (hs : History.Step p h a h')
    (hold : h.store.record device timestamp = .ok old) :
    ∃ old', h'.store.record device timestamp = .ok old' ∧
      inCloud old' = cloudStep device timestamp (inCloud old) a := by
  unfold cloudStep
  cases hs with
  | @accepted stored' store stored possible after others =>
    by_cases hk : a.device = device ∧ a.timestamp = timestamp
    · obtain ⟨rfl, rfl⟩ := hk
      obtain rfl := Except.ok.inj (stored.symm.trans hold)
      refine ⟨_, after, ?_⟩
      cases hl : a.location with
      | device =>
        rw [inCloud_outcome_of_device hl]
        simp
      | cloud =>
        rw [inCloud_outcome_of_cloud hl]
        by_cases hc : a.faults.get = false ∧ a.faults.put = false ∧ (a.duration : Int) ≤ Stamp.greatest
        · simp [hc]
        · -- nothing can be written, so the record said so before
          obtain ⟨hget, hsays | ⟨hput, hfits⟩⟩ := possible
          · obtain ⟨f, hf, hsays⟩ := (Option.any_eq_true _ _).1 hsays
            obtain ⟨hd, hfl⟩ := of_decide_eq_true hsays
            rw [inCloud_eq_some.2 ⟨f, hf, hfl.trans hl, hd⟩]
            simp
          · exact absurd ⟨hget, hput, hfits⟩ hc
    · refine ⟨old, (others device timestamp hk).trans hold, ?_⟩
      rw [if_neg fun h => hk h.1]
  | failed impossible same =>
    refine ⟨old, (same device timestamp).trans hold, (if_neg ?_).symm⟩
    rintro ⟨⟨rfl, rfl⟩, -, hget, hput, hfits⟩
    exact impossible old hold ⟨hget, .inr ⟨hput, hfits⟩⟩

/-- The duration of a record in the cloud, after all arrivals. -/
theorem inCloud_of (p : Paging) (arrivals : List Arrival) (device : String) (timestamp : Int) :
    ∃ old, (History.of p arrivals).store.record device timestamp = .ok old ∧
      inCloud old = arrivals.foldl (cloudStep device timestamp) none := by
  have hrun : ∀ (arrivals : List Arrival) (h : History) (old : Option Fragment),
      h.store.record device timestamp = .ok old →
      ∃ old', (arrivals.foldl (History.next p) h).store.record device timestamp = .ok old' ∧
        inCloud old' = arrivals.foldl (cloudStep device timestamp) (inCloud old) := by
    intro arrivals
    induction arrivals with
    | nil => exact fun h old hold => ⟨old, hold, rfl⟩
    | cons a arrivals ih =>
      intro h old hold
      obtain ⟨old₁, hold₁, hstep⟩ := inCloud_step (History.step_next p h a) hold
      rw [List.foldl_cons, List.foldl_cons, ← hstep]
      exact ih _ old₁ hold₁
  exact hrun arrivals {} none rfl

/-- The arrivals without the reports of the device for one record. -/
def withoutDevice (device : String) (timestamp : Int) (arrivals : List Arrival) : List Arrival :=
  arrivals.filter fun a => ¬ (a.device = device ∧ a.timestamp = timestamp ∧ a.location = .device)

theorem foldl_cloudStep_withoutDevice (arrivals : List Arrival) (d : Option Nat) :
    (withoutDevice device timestamp arrivals).foldl (cloudStep device timestamp) d =
      arrivals.foldl (cloudStep device timestamp) d := by
  induction arrivals generalizing d with
  | nil => rfl
  | cons a arrivals ih =>
    rw [List.foldl_cons, ← ih]
    by_cases ha : a.device = device ∧ a.timestamp = timestamp ∧ a.location = .device
    · have hd : cloudStep device timestamp d a = d := by
        unfold cloudStep
        rw [if_neg fun h => absurd (h.2.1.symm.trans ha.2.2) (by simp)]
      rw [withoutDevice, List.filter_cons_of_neg (by simpa using ha), ← withoutDevice, hd]
    · rw [withoutDevice, List.filter_cons, if_pos (decide_eq_true ha), ← withoutDevice, List.foldl_cons]

/-- What a record in the cloud says is the same without the reports of the device. -/
theorem record_eq_of_withoutDevice {arrivals arrivals' : List Arrival} {f : Fragment}
    (hw : withoutDevice device timestamp arrivals' = withoutDevice device timestamp arrivals)
    (hf : (History.of p arrivals).store.record device timestamp = .ok (some f))
    (hcloud : f.location = .cloud) :
    ∃ f', (History.of p arrivals').store.record device timestamp = .ok (some f') ∧
      f'.location = f.location ∧ f'.duration = f.duration := by
  obtain ⟨old, hold, hin⟩ := inCloud_of p arrivals device timestamp
  obtain ⟨old', hold', hin'⟩ := inCloud_of p arrivals' device timestamp
  obtain rfl := Except.ok.inj (hf.symm.trans hold)
  have hsame : inCloud old' = some f.duration := by
    rw [hin', ← foldl_cloudStep_withoutDevice, hw, foldl_cloudStep_withoutDevice, ← hin]
    exact inCloud_eq_some.2 ⟨f, rfl, hcloud, rfl⟩
  obtain ⟨f', rfl, hf', hd⟩ := inCloud_eq_some.1 hsame
  exact ⟨f', hold', hf'.trans hcloud.symm, hd⟩

/-- **The record of its reports.** A report of the cloud counts for good, and among those of one location the
last. Reports of the device do not bear on a record in the cloud. -/
theorem record_eq_reports (p : Paging) (arrivals : List Arrival) (device : String) (timestamp : Int) :
    let h := History.of p arrivals
    let rs := h.receiptsOf device timestamp
    ((h.store.find? ⟨Fragment.partition device, timestamp⟩).isSome ↔ rs ≠ []) ∧
    (∀ desk : Desk Memory, desk.store.rows = h.store.rows → desk.store.faults.get = false →
      ∀ first ∈ rs.head?, ∃ f : Fragment,
        load Memory.backend device timestamp desk = (.ok (some f), desk) ∧
        f.device = device ∧ f.timestamp = timestamp ∧
        (f.location = .cloud ↔ ∃ r ∈ rs, r.location = .cloud) ∧
        some f.duration = ((rs.filter (·.location = .cloud)).getLast?.or
          (rs.filter (·.location = .device)).getLast?).map (·.duration) ∧
        f.createdAt = first.now ∧
        some f.lastUpdated = (rs.filter (·.Changed)).getLast?.map (·.now) ∧
        f.expires = timestamp / 1000 + p.retentionDays * 86400) ∧
    (∀ arrivals', withoutDevice device timestamp arrivals' = withoutDevice device timestamp arrivals →
      (∃ r ∈ rs, r.location = .cloud) →
      ∃ f f', h.store.record device timestamp = .ok (some f) ∧
        (History.of p arrivals').store.record device timestamp = .ok (some f') ∧
        f'.location = f.location ∧ f'.duration = f.duration) ∧
    ∀ duration l (desk desk' again : Desk Memory),
      save Memory.backend p device timestamp duration l desk = (.ok (), desk') →
      again.store.rows = desk'.store.rows →
      (save Memory.backend p device timestamp duration l again).2.store.rows = again.store.rows := by
  intro h rs
  obtain ⟨old, hold, hrep⟩ := reported_of p arrivals device timestamp
  have hstored : (h.store.find? ⟨Fragment.partition device, timestamp⟩).isSome ↔ rs ≠ [] := by
    rw [Memory.isSome_find? hold]
    exact hrep.isSome_iff
  refine ⟨hstored, ?_, ?_, fun duration l desk desk' again hs hrows => rows_save_again hs hrows⟩
  · intro desk hrows hget first hfirst
    have hmem : first ∈ rs := List.mem_of_mem_head? hfirst
    obtain ⟨f, rfl⟩ := Option.isSome_iff_exists.1 (hrep.isSome_iff.2 (List.ne_nil_of_mem hmem))
    have hA : Accounts p device timestamp rs f := hrep
    have hcreated := hA.createdAt
    rw [Option.mem_def.1 hfirst] at hcreated
    exact ⟨f, load_eq_ok hget ((Memory.entry_congr hrows _).trans hold), hA.device_eq, hA.timestamp_eq,
      hA.cloud_iff, hA.duration_eq, (Option.some.inj hcreated).symm, hA.lastUpdated.symm, hA.expires_eq⟩
  · intro arrivals' hw hcloud
    obtain ⟨r, hr, -⟩ := id hcloud
    obtain ⟨f, rfl⟩ := Option.isSome_iff_exists.1 (hrep.isSome_iff.2 (List.ne_nil_of_mem hr))
    have hA : Accounts p device timestamp rs f := hrep
    obtain ⟨f', hf', hsame⟩ := record_eq_of_withoutDevice hw hold (hA.cloud_iff.2 hcloud)
    exact ⟨f, f', hold, hf', hsame⟩

/-- Reported for the device at 7, for the cloud at 9 and for the device again at 10; a report of the
cloud at 8 was not written. -/
theorem record_eq_reports_promoted :
    let arrivals : List Arrival := [⟨"d", -1, 500, .device, ⟨7, 0⟩, {}⟩,
      ⟨"d", -1, 400, .cloud, ⟨8, 0⟩, { put := true }⟩, ⟨"d", -1, 600, .cloud, ⟨9, 0⟩, {}⟩,
      ⟨"d", -1, 700, .device, ⟨10, 0⟩, {}⟩]
    let h := History.of {} arrivals
    (∃ f : Fragment, load Memory.backend "d" (-1) ⟨h.store, ⟨0, 0⟩⟩ = (.ok (some f), ⟨h.store, ⟨0, 0⟩⟩) ∧
      f.location = .cloud ∧ f.duration = 600 ∧ f.createdAt = 7 ∧ f.lastUpdated = 9 ∧
      f.expires = -1 + 90 * 86400) ∧
    (∃ f f', h.store.record "d" (-1) = .ok (some f) ∧
      (History.of {} (withoutDevice "d" (-1) arrivals)).store.record "d" (-1) = .ok (some f') ∧
      f'.location = f.location ∧ f'.duration = f.duration) ∧
    (save Memory.backend {} "d" (-1) 700 .device ⟨h.store, ⟨11, 0⟩⟩).2.store.rows = h.store.rows := by
  intro arrivals h
  obtain ⟨-, hload, hcloud, hagain⟩ := record_eq_reports {} arrivals "d" (-1)
  have hfirst : (h.receiptsOf "d" (-1)).head?.map (·.now) = some 7 := by decide +kernel
  have hclouds : (((h.receiptsOf "d" (-1)).filter (·.location = .cloud)).getLast?.or
      ((h.receiptsOf "d" (-1)).filter (·.location = .device)).getLast?).map (·.duration) = some 600 := by
    decide +kernel
  have hchanged : ((h.receiptsOf "d" (-1)).filter (·.Changed)).getLast?.map (·.now) = some 9 := by
    decide +kernel
  have hexists : ∃ r ∈ h.receiptsOf "d" (-1), r.location = .cloud := by decide +kernel
  obtain ⟨first, hf, hnow⟩ := Option.map_eq_some_iff.1 hfirst
  obtain ⟨f, hf, -, -, hl, hd, hc, hu, he⟩ := hload ⟨h.store, ⟨0, 0⟩⟩ rfl (by decide +kernel) first hf
  refine ⟨⟨f, hf, hl.2 hexists, ?_, hc.trans hnow, ?_, he⟩, ?_, ?_⟩
  · exact Option.some.inj (hd.trans hclouds)
  · exact Option.some.inj (hu.trans hchanged)
  · refine hcloud _ ?_ hexists
    unfold withoutDevice
    rw [List.filter_filter]
    simp
  · exact hagain 700 .device ⟨h.store, ⟨10, 0⟩⟩ _ _
      (Prod.ext (eq_ok_of_toOption (by decide +kernel)) rfl) (by decide +kernel)

end

end Footage.Archive
