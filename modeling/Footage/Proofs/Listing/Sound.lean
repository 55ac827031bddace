import Footage.Proofs.Listing.Page
import Footage.Proofs.Rollup.Sound

/-!
# Listings of sound stores

In a sound store nothing is unreadable: a listing there is refused for what the caller sent, or the
store is out of service. The main statement sums up what every history guarantees.
-/

namespace Footage

open Footage.Task

theorem Memory.Sound.listable {m : Memory} (h : m.Sound) (r : Listing.Request) :
    Listing.Listable r m.items where
  ascending := m.ascending_items
  aligned i hi hp := by
    obtain ⟨-, -, ha, -⟩ := h.exists_bucket hi hp
    exact ha
  readable i hi hp := by
    obtain ⟨b, hb, -⟩ := h.exists_bucket hi hp
    exact ⟨b, hb⟩

namespace Listing

variable {σ : Type} {b : Backend σ} {I : σ → Prop} {E : StoreError → Prop} {items : List Item}
  {r : Request}

/-- What an answered page says of its request: it was accepted with its token, and the page shows the
periods from the first one on, if that is before the end. -/
structure Answered (r : Request) (p : Paging) (items : List Item) (after : Option Key) (first : Int)
    (pg : PeriodPage) : Prop where
  bounded : r.Bounded
  check : r.check = .ok ()
  resume : r.resume = .ok (after, first)
  empty : r.stop ≤ first → pg = {}
  shows : first < r.stop → Stamp.least ≤ r.stop - r.bucketMillis ∧ ∃ stop, Shows r p items after first stop pg

/-- Whatever is asked, a listing of readable items is answered or fails because of the caller or of the
store. -/
theorem page_answers (hS : Serves b I E items) (hL : Listable r items) (hstart : Stamp.Fits r.start)
    (hstop : Stamp.Fits r.stop) (p : Paging) {desk : Desk σ} (hI : I desk.store) :
    Ends (fun d : Desk σ => I d.store)
      (fun f => (∃ e, f = .request e) ∨ (∃ e, f = .token e) ∨ ∃ e, f = .store e ∧ E e)
      (fun pg => ∃ after first, Answered r p items after first pg) (page b p r desk) := by
  cases hcheck : r.check with
  | error e =>
    unfold page pageBy
    rw [hcheck]
    exact ⟨hI, .inl ⟨e, rfl⟩⟩
  | ok =>
    have hr : r.Bounded := ⟨(check_eq_ok.1 hcheck).1, hstart.1, hstop.2⟩
    cases hresume : r.resume with
    | error e =>
      unfold page pageBy
      rw [hcheck, hresume]
      exact ⟨hI, .inr (.inl ⟨e, rfl⟩)⟩
    | ok x =>
      obtain ⟨after, first⟩ := x
      by_cases hf : first < r.stop
      · by_cases hlast : Stamp.least ≤ r.stop - r.bucketMillis
        · exact (page_ends hS hr hL hcheck r.token hresume hf hlast hI).imp (fun _ h => .inr (.inr h))
            fun pg h => ⟨after, first, hr, hcheck, hresume, fun hle => absurd hf (Int.not_lt.2 hle),
              fun _ => ⟨hlast, h⟩⟩
        · rw [page_too_early hcheck hresume hf (Int.not_le.1 hlast)]
          exact ⟨hI, .inl ⟨_, rfl⟩⟩
      · rw [page_of_stop_le hcheck hresume (Int.not_lt.1 hf)]
        exact ⟨hI, after, first, hr, hcheck, hresume, fun _ => rfl, fun h => absurd h hf⟩

/-- The page that a sound store has answered. -/
theorem answered_of_page_eq_ok {m : Memory} (hs : m.Sound) (hstart : Stamp.Fits r.start)
    (hstop : Stamp.Fits r.stop) {p : Paging} {desk desk' : Desk Memory} (hrows : desk.store.rows = m.rows)
    {pg : PeriodPage} (h : page Memory.backend p r desk = (.ok pg, desk')) :
    ∃ after first, Answered r p m.items after first pg := by
  have hends : Ends _ _ _ (page Memory.backend p r desk) :=
    page_answers m.serves (hs.listable r) hstart hstop p hrows
  rw [h] at hends
  exact hends.2

theorem page_ne_unreadable {desk : Desk Memory} (hs : desk.store.Sound) (hstart : Stamp.Fits r.start)
    (hstop : Stamp.Fits r.stop) (p : Paging) (e : AttributeError) :
    (page Memory.backend p r desk).1 ≠ .error (.unreadable e) := by
  intro h
  obtain ⟨-, hends⟩ := page_answers desk.store.serves (hs.listable r) hstart hstop p rfl
  rw [h] at hends
  rcases hends with ⟨_, hf⟩ | ⟨_, hf⟩ | ⟨_, hf, _, rfl⟩
  all_goals exact absurd hf (by simp [Failure.unreadable])

/-- **What every store guarantees.** Saves leave aligned buckets within their capacity only, so no load, listing
or save finds an item unreadable. -/
theorem history_sound (arrivals : List Rollup.Arrival) :
    let m := (Rollup.History.of arrivals).store
    (∀ i ∈ m.items, ∃ (device : String) (g : Granularity) (cloud inDevice : Nat) (created updated : Int),
      i.key.partition = device ++ "#" ++ g.name ∧ i.key.sort % g.millis = 0 ∧
      i.attributes.entries =
        [("cloudDensityMillis", .number cloud), ("createdAt", .number created),
          ("deviceDensityMillis", .number inDevice), ("lastUpdated", .number updated)] ∧
      (cloud + inDevice : Int) ≤ g.millis) ∧
    (∀ desk : Desk Memory, desk.store.rows = m.rows →
      (∀ device g start e,
        (Rollup.load Memory.backend device g start desk).1 ≠ .error (.unreadable e)) ∧
      (∀ p r e, Stamp.Fits r.start → Stamp.Fits r.stop →
        (page Memory.backend p r desk).1 ≠ .error (.unreadable e))) ∧
    ∀ (desk : Desk Memory) (e : Event),
      (∀ d, (Rollup.save Memory.backend e desk).1 ≠ .error (.request (.densityTooLarge d))) ∧
      ∀ b desk', Rollup.save Memory.backend e desk = (.ok b, desk') →
        ∃ i, desk'.store.find?
            ⟨Bucket.partition e.update.device e.update.granularity, e.update.bucketStart⟩ = some i ∧
          Bucket.ofItem e.update.device e.update.granularity i = .ok b ∧
          (b.cloudDensity + b.deviceDensity : Int) ≤ e.update.granularity.millis := by
  intro m
  have hs : m.Sound := Rollup.sound_of arrivals
  refine ⟨fun i hi => ?_, fun desk hrows => ⟨?_, ?_⟩, fun desk e => ⟨?_, ?_⟩⟩
  · obtain ⟨b, rfl, ha, hb⟩ := hs i hi
    refine ⟨b.device, b.granularity, b.cloudDensity, b.deviceDensity, b.createdAt, b.lastUpdated, rfl,
      ha, b.entries_item, ?_⟩
    have := b.granularity.millis_pos
    unfold Bucket.total Bucket.capacity at hb
    omega
  · intro device g start e
    exact Rollup.load_ne_unreadable (hs.congr hrows) device g start e
  · intro p r e hstart hstop
    exact page_ne_unreadable (hs.congr hrows) hstart hstop p e
  · intro d
    exact Rollup.save_ne_densityTooLarge e desk d
  · intro b desk' h
    obtain ⟨hstored, hle⟩ := Rollup.stored_of_save_eq_ok h
    obtain ⟨i, hi, ho⟩ := Memory.find?_of_entry_eq_some hstored
    exact ⟨i, hi, ho, hle⟩

/-- Two fifths of a second on the device. -/
theorem history_sound_second :
    let e : Event := .increment ⟨"d", .seconds, 1000, 400, .device⟩
    let m := (Rollup.History.of [⟨e, ⟨7, 0⟩, {}⟩]).store
    let b : Bucket := ⟨"d", .seconds, 1000, 0, 400, 7, 7⟩
    m.items = [b.item] ∧
      (∃ (device : String) (g : Granularity), b.item.key.partition = device ++ "#" ++ g.name ∧
        b.item.key.sort % g.millis = 0) ∧
      (∀ f, (page Memory.backend {} ⟨"d", .seconds, 0, 3000, 1000, none⟩ ⟨m, ⟨0, 0⟩⟩).1 ≠
        .error (.unreadable f)) ∧
      ∃ i, m.find? ⟨"d#SECONDS", 1000⟩ = some i ∧ Bucket.ofItem "d" .seconds i = .ok b ∧
        (b.cloudDensity + b.deviceDensity : Int) ≤ 1000 := by
  intro e m b
  have hitems : m.items = [b.item] := by decide +kernel
  have hsave : Rollup.save Memory.backend e ⟨{}, ⟨7, 0⟩⟩ = (.ok b, ⟨m, ⟨7, 0⟩⟩) :=
    Prod.ext (eq_ok_of_toOption (by decide +kernel)) (by decide +kernel)
  obtain ⟨hall, hdesk, hsaves⟩ := history_sound [⟨e, ⟨7, 0⟩, {}⟩]
  refine ⟨hitems, ?_, ?_, (hsaves _ _).2 _ _ hsave⟩
  · obtain ⟨device, g, -, -, -, -, hp, hs, -⟩ := hall b.item (by rw [hitems]; simp)
    exact ⟨device, g, hp, hs⟩
  · intro f
    exact (hdesk ⟨m, ⟨0, 0⟩⟩ rfl).2 _ _ f (by decide) (by decide)

end Listing

end Footage
