import Footage.Listing
import Footage.Proofs.Store.Reads

/-!
# The two reading loops of a listing

Over a store that serves some items, the first loop ends with a page that is empty only if nothing is
left (`firstPage_ends`), and the second with all the items that a key leaves (`remaining_ends`). Every
page that names a key raises the least number at which a later one may break off, so the number of reads
that is set for a loop is never used up.
-/

namespace Footage.Listing

open Footage.Task

variable {σ : Type} {b : Backend σ} {I : σ → Prop} {E : StoreError → Prop} {items : List Item}

/-- The numbers at which the pages of a query may still break off. -/
def ahead (q : RangeRead) : Nat := (q.upper - q.floor + 1).toNat

theorem ahead_lt_readsOf {q : RangeRead} (hl : Stamp.least ≤ q.lower) (idle : Nat) (after : Option Key) :
    ahead (q.resumed after) < q.positions + idle + 1 := by
  have h : min q.lower Stamp.least ≤ (q.resumed after).floor := RangeRead.lower_le_least _
  unfold ahead RangeRead.positions
  show (q.upper - (q.resumed after).floor + 1).toNat < _
  omega

theorem ahead_resumed_lt {q : RangeRead} {page : RangePage} {left : List Item} {k : Key}
    (h : Answers items q page left) (hu : q.upper < Stamp.greatest) (hk : k ∈ page.next) :
    ahead (q.resumed (some k)) < ahead q := by
  have hl := h.floor_le k hk
  have hku := h.le_upper k hk
  have hfloor := h.floor_resumed hu hk
  unfold ahead
  show (q.upper - (q.resumed (some k)).floor + 1).toNat < _
  omega

theorem firstPage_ends (hS : Serves b I E items) {q : RangeRead} (hu : q.upper < Stamp.greatest)
    {reads : Nat} {after : Option Key} {s : σ} (hI : I s) (hr : ahead (q.resumed after) < reads) :
    Ends I E (fun page => (∃ left, Answers items (q.resumed after) page left) ∧
      (page.items = [] → page.next = none)) (firstPage b q reads after s) := by
  induction reads generalizing after s with
  | zero => omega
  | succ reads ih =>
    unfold firstPage
    refine Ends.bind (hS.read (q.resumed after) s hI) fun page s' hI' hpage => ?_
    obtain ⟨left, hans⟩ := hpage
    rcases hitems : page.items with _ | ⟨i, is⟩
    · rcases hnext : page.next with _ | k
      · exact Ends.pure hI' ⟨⟨left, hans⟩, fun _ => hnext⟩
      · have hk : k ∈ page.next := Option.mem_def.2 hnext
        have hlt := ahead_resumed_lt hans hu hk
        refine (ih hI' (by rw [RangeRead.resumed_resumed] at hlt; omega)).imp (fun _ h => h) ?_
        rintro page' ⟨⟨left', hans'⟩, hempty⟩
        exact ⟨⟨left', hans.of_empty hu hitems hk hans'⟩, hempty⟩
    · exact Ends.pure hI' ⟨⟨left, hans⟩, fun h => absurd (hitems.symm.trans h) (by simp)⟩

theorem remaining_ends (hS : Serves b I E items) {q : RangeRead} (hu : q.upper < Stamp.greatest)
    {reads : Nat} {after : Key} {s : σ} (hI : I s) (hr : ahead (q.resumed (some after)) < reads) :
    Ends I E (· = (q.resumed (some after)).select items) (remaining b q reads after s) := by
  induction reads generalizing after s with
  | zero => omega
  | succ reads ih =>
    unfold remaining
    refine Ends.bind (hS.read (q.resumed (some after)) s hI) fun page s' hI' hpage => ?_
    obtain ⟨left, hans⟩ := hpage
    rcases hnext : page.next with _ | k
    · refine Ends.pure hI' ?_
      rw [hans.select_eq, hans.complete hnext, List.append_nil]
    · have hk : k ∈ page.next := Option.mem_def.2 hnext
      have hlt := ahead_resumed_lt hans hu hk
      refine Ends.bind (ih hI' (by rw [RangeRead.resumed_resumed] at hlt; omega)) ?_
      rintro rest s'' hI'' rfl
      refine Ends.pure hI'' ?_
      rw [hans.select_eq, ← hans.select_resumed hu hk, RangeRead.resumed_resumed]

end Footage.Listing
