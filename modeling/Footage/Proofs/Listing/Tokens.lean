import Footage.Proofs.Listing.Chain

/-!
# Tokens sent back

A token that a page names is sent back with the same query. It resumes at the boundary where the page
stopped, which is a stored number before the end of the listing (`page_of_token`). The boundary is
computed through its distance from the start of the listing, though, and in a range that is wider than the
greatest stored number this distance may be none. Then the token is refused as if no period followed.
-/

namespace Footage.Listing

open Footage.Task

variable {σ : Type} {b : Backend σ} {I : σ → Prop} {E : StoreError → Prop} {items : List Item}
  {r : Request} {p : Paging} {first stop : Int} {k : Key}

/-- The call with a token of a page: it is answered, or the boundary is too far from the start. -/
theorem page_of_token (desk : Desk σ) (hS : Serves b I E items) (hr : r.Bounded) (hL : Listable r items)
    (hcheck : r.check = .ok ()) (hlast : Stamp.least ≤ r.stop - r.bucketMillis)
    (hR : Resumes r stop (some k)) (hlt : stop < r.stop) (hI : I desk.store) :
    if stop - r.start ≤ Stamp.greatest then
      Ends (fun d : Desk σ => I d.store) (fun f => ∃ e, f = .store e ∧ E e)
        (fun pg => ∃ stop', Shows r p items (some k) stop stop' pg)
        (page b p { r with token := some (Token.encode k) } desk)
    else page b p { r with token := some (Token.encode k) } desk =
      (.error (.token (.lastPeriod k.sort)), desk) := by
  have hresume := resume_encode hr hR hlt
  by_cases hnear : stop - r.start ≤ Stamp.greatest
  · rw [if_pos hnear] at hresume ⊢
    exact page_ends hS hr hL hcheck _ hresume hlt hlast hI
  · rw [if_neg hnear] at hresume ⊢
    exact page_of_resume_eq_error hcheck hresume desk

/-- **Which of its own tokens a listing accepts.** It refuses one where the next boundary is further from the
start than the greatest stored number, though a period begins there. -/
theorem own_token_accepted_iff (arrivals : List Rollup.Arrival) (p : Paging) (r : Request)
    (hstart : Stamp.Fits r.start) (hstop : Stamp.Fits r.stop) {desk desk' : Desk Memory}
    (hrows : desk.store.rows = (Rollup.History.of arrivals).store.rows) {pg : PeriodPage} {t : String}
    (hpage : page Memory.backend p r desk = (.ok pg, desk')) (ht : pg.token = some t)
    {again : Desk Memory} (hagain : again.store.rows = desk.store.rows) (hread : again.store.Readable) :
    ∃ position, Token.decode r.partition t = .ok ⟨r.partition, position⟩ ∧
      r.start ≤ position ∧ position < r.stop ∧
      let next := nextBoundary r.start r.increment position
      position < next ∧ next < r.stop ∧
      ((∃ pg' desk'', page Memory.backend p { r with token := some t } again = (.ok pg', desk'')) ↔
        next - r.start ≤ Stamp.greatest) ∧
      (¬ next - r.start ≤ Stamp.greatest →
        page Memory.backend p { r with token := some t } again =
          (.error (.token (.lastPeriod position)), again)) := by
  have hs : desk.store.Sound := (Rollup.sound_of arrivals).congr hrows
  obtain ⟨after, first, h⟩ := answered_of_page_eq_ok hs hstart hstop rfl hpage
  have hf : first < r.stop := by
    refine Int.not_le.1 fun hle => ?_
    rw [h.empty hle] at ht
    exact absurd ht (by simp)
  obtain ⟨hlast, stop, hshows⟩ := h.shows hf
  obtain ⟨hlt, k, rfl, hR, -⟩ := hshows.before_end t ht
  have hdecode := hR.decode_encode h.bounded
  have hback := page_of_token (p := p) again desk.store.serves_readable h.bounded (hs.listable r) h.check
    hlast hR hlt ⟨hagain, hread⟩
  obtain ⟨hp, hks, hkl, rfl⟩ := hR
  have hk : k = ⟨r.partition, k.sort⟩ := by rw [← hp]
  refine ⟨k.sort, hdecode.trans (congrArg Except.ok hk), hks, hkl, lt_nextBoundary h.bounded.increment_pos,
    hlt, ?_, fun hfar => ?_⟩
  · by_cases hnear : nextBoundary r.start r.increment k.sort - r.start ≤ Stamp.greatest
    · rw [if_pos hnear] at hback
      refine ⟨fun _ => hnear, fun _ => ?_⟩
      rcases hcall : page Memory.backend p { r with token := some (Token.encode k) } again with ⟨res, desk''⟩
      rw [hcall] at hback
      obtain ⟨-, hends⟩ := hback
      cases res with
      | error f =>
        obtain ⟨-, -, hno⟩ := hends
        exact absurd hno id
      | ok pg' => exact ⟨pg', desk'', rfl⟩
    · rw [if_neg hnear] at hback
      refine ⟨fun ⟨pg', desk'', hok⟩ => ?_, fun h => absurd h hnear⟩
      rw [hback] at hok
      exact absurd (Prod.mk.inj hok).1 (by simp)
  · rwa [if_neg hfar] at hback

/-- A page that the store cuts after its first bucket: the token of that bucket is accepted. -/
theorem own_token_accepted_iff_unaligned :
    let arrivals : List Rollup.Arrival :=
      [⟨.increment ⟨"d", .seconds, 1000, 400, .device⟩, ⟨7, 0⟩, {}⟩,
        ⟨.increment ⟨"d", .seconds, 3000, 700, .cloud⟩, ⟨8, 0⟩, {}⟩]
    let desk : Desk Memory := ⟨{ (Rollup.History.of arrivals).store with pageSize := some 1 }, ⟨0, 0⟩⟩
    let r : Request := ⟨"d", .seconds, 500, 6000, 2000, none⟩
    let t := Token.encode ⟨"d#SECONDS", 1000⟩
    (page Memory.backend {} r desk).1 = .ok ⟨[⟨500, 400, 0, 400⟩], some t⟩ ∧
      ∃ pg' desk'', page Memory.backend {} { r with token := some t } desk = (.ok pg', desk'') := by
  intro arrivals desk r t
  have hpage : (page Memory.backend {} r desk).1 = .ok ⟨[⟨500, 400, 0, 400⟩], some t⟩ :=
    eq_ok_of_toOption (by decide +kernel)
  have hread : desk.store.Readable := by
    unfold Memory.Readable
    decide +kernel
  have hcall : page Memory.backend {} r desk = (.ok _, (page Memory.backend {} r desk).2) :=
    Prod.ext hpage rfl
  obtain ⟨position, -, -, hlt, -, hnext, haccepted, -⟩ := @own_token_accepted_iff arrivals {} r
    (by decide) (by decide) desk _ rfl _ _ hcall rfl desk rfl hread
  have hnear : nextBoundary r.start r.increment position - r.start ≤ Stamp.greatest := by
    have h : r.stop - r.start ≤ Stamp.greatest := by decide
    omega
  exact ⟨hpage, haccepted.2 hnear⟩

/-- From the least stored number on, with one period on a page, the third call is refused: the period that
it asks for starts at a stored number before the end, but too far from the start. -/
theorem own_token_refused :
    let r : Request := ⟨"d", .seconds, Stamp.least, Stamp.greatest, 5000000000000000000, none⟩
    let desk : Desk Memory := ⟨(Rollup.History.of []).store, ⟨0, 0⟩⟩
    let ask token := page Memory.backend { periodsPerPage := 1 } { r with token }
    ∃ pg₁ pg₂ t₁ t₂, (ask none desk).1 = .ok pg₁ ∧ pg₁.token = some t₁ ∧
      (ask (some t₁) desk).1 = .ok pg₂ ∧ pg₂.token = some t₂ ∧
      (ask (some t₂) desk).1 = .error (.token (.lastPeriod 776627963145224191)) ∧
      776627963145224192 < r.stop ∧ 776627963145224192 = r.start + 2 * r.increment := by
  intro r desk ask
  have hrefused : (match (ask (some (Token.encode ⟨"d#SECONDS", 776627963145224191⟩)) desk).1 with
      | .error f => some f
      | .ok _ => none) = some (.token (.lastPeriod 776627963145224191)) := by decide +kernel
  refine ⟨⟨[⟨Stamp.least, 0, 0, 0⟩], some (Token.encode ⟨"d#SECONDS", -4223372036854775809⟩)⟩,
    ⟨[⟨-4223372036854775808, 0, 0, 0⟩], some (Token.encode ⟨"d#SECONDS", 776627963145224191⟩)⟩, _, _,
    eq_ok_of_toOption (by decide +kernel), rfl, eq_ok_of_toOption (by decide +kernel), rfl, ?_, by decide,
    by decide⟩
  split at hrefused
  next f hf => rw [hf, Option.some.inj hrefused]
  next => exact absurd hrefused (by simp)

end Footage.Listing
