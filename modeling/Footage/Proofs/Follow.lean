import Footage.Desk

/-!
# Following tokens

A caller who wants all pages asks for one after the other, each with the token of the page before it,
until a page has no token. `Follows` are the pages of a caller of whom no call fails; there is at most
one list of them.
-/

namespace Footage

variable {σ α : Type} {ask : Nat → Option String → DeskTask σ α} {next : α → Option String}

/-- The pages from a token on, up to the last one. The calls have numbers; `next` is the token of a
page. -/
inductive Follows (ask : Nat → Option String → DeskTask σ α) (next : α → Option String) :
    Nat → Option String → Desk σ → List α → Prop
  | last {n token desk a desk'} (h : ask n token desk = (.ok a, desk')) (hend : next a = none) :
      Follows ask next n token desk [a]
  | more {n token desk a desk' t pages} (h : ask n token desk = (.ok a, desk')) (ht : next a = some t)
      (rest : Follows ask next (n + 1) (some t) desk' pages) :
      Follows ask next n token desk (a :: pages)

namespace Follows

variable {n : Nat} {token : Option String} {desk : Desk σ} {pages pages' : List α}

theorem exists_first (h : Follows ask next n token desk pages) :
    ∃ a desk' rest, ask n token desk = (.ok a, desk') ∧ pages = a :: rest := by
  cases h with
  | last h => exact ⟨_, _, [], h, rfl⟩
  | more h _ _ => exact ⟨_, _, _, h, rfl⟩

theorem unique (h : Follows ask next n token desk pages) (h' : Follows ask next n token desk pages') :
    pages' = pages := by
  induction h generalizing pages' with
  | last h hend =>
    cases h' with
    | last h' =>
      rw [h] at h'
      obtain rfl := Except.ok.inj (Prod.mk.inj h').1
      rfl
    | more h' ht =>
      rw [h] at h'
      obtain rfl := Except.ok.inj (Prod.mk.inj h').1
      exact absurd (hend.symm.trans ht) (by simp)
  | more h ht rest ih =>
    cases h' with
    | last h' hend =>
      rw [h] at h'
      obtain rfl := Except.ok.inj (Prod.mk.inj h').1
      exact absurd (hend.symm.trans ht) (by simp)
    | more h' ht' rest' =>
      rw [h] at h'
      obtain ⟨ha, rfl⟩ := Prod.mk.inj h'
      obtain rfl := Except.ok.inj ha
      obtain rfl := Option.some.inj (ht.symm.trans ht')
      rw [ih rest']

end Follows

end Footage
