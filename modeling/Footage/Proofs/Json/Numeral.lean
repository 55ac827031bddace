import Mathlib.Data.List.TakeWhile
import Footage.Json.Printer
import Footage.Proofs.Text.Decimal

/-!
# Whole numerals

A numeral without a fraction or an exponent is read as it is written, and one of 64 bits is finite in double
precision.
-/

namespace Footage.Json.Numeral

/-- There is neither a fraction nor an exponent. -/
def Whole (n : Numeral) : Prop := n.whole = true ∧ n.scale = 0

theorem whole_ofInt (n : Int) : (ofInt n).Whole := by cases n <;> exact ⟨rfl, rfl⟩

theorem digits?_ofNat (n : Nat) : digits? (Decimal.ofNat n) = some (Decimal.ofNat n, []) := by
  have hall : ∀ c ∈ Decimal.ofNat n, c.isDigit := fun c hc => Decimal.isDigit_of_mem_ofNat hc
  have htake : (Decimal.ofNat n).takeWhile Char.isDigit = Decimal.ofNat n :=
    List.takeWhile_eq_self_iff.2 hall
  have hdrop : (Decimal.ofNat n).dropWhile Char.isDigit = [] := List.dropWhile_eq_nil_iff.2 hall
  unfold digits?
  rw [htake, hdrop]
  rcases hd : Decimal.ofNat n with _ | ⟨c, cs⟩
  · exact absurd hd (Decimal.ofNat_ne_nil n)
  · rfl

theorem wholePart?_ofNat (n : Nat) : wholePart? (Decimal.ofNat n) = some (Decimal.ofNat n, []) := by
  unfold wholePart?
  rw [digits?_ofNat]
  have h : ¬ ((Decimal.ofNat n).length ≠ 1 ∧ (Decimal.ofNat n).head? = some '0') := fun ⟨hl, hh⟩ =>
    hl (Decimal.length_ofNat_of_head? hh)
  simp only [Option.bind_eq_bind, Option.bind_some, h, if_false]

theorem fraction?_nil : fraction? [] = some ([], []) := rfl

theorem exponent?_nil : exponent? [] = some 0 := rfl

theorem ofChars?_chars {n : Numeral} (h : n.Whole) : ofChars? n.chars = some n := by
  obtain ⟨negative, d, scale, whole⟩ := n
  obtain ⟨rfl, rfl⟩ : whole = true ∧ scale = 0 := h
  have hwhole := wholePart?_ofNat d
  have hvalue := Decimal.value_ofNat d
  unfold chars
  rcases hd : Decimal.ofNat d with _ | ⟨c, cs⟩
  · exact absurd hd (Decimal.ofNat_ne_nil d)
  · have hdigit : c.isDigit := Decimal.isDigit_of_mem_ofNat (n := d) (hd ▸ List.mem_cons_self)
    have hc : c ≠ '-' := by
      rintro rfl
      exact absurd hdigit (by decide)
    rw [hd] at hwhole hvalue
    cases negative <;>
      simp [ofChars?, hc, hwhole, fraction?_nil, exponent?_nil, hvalue]

theorem toInt?_ofInt (n : Int) : (ofInt n).toInt? = some n := by
  cases n with
  | ofNat n => rfl
  | negSucc n => rfl

/-- The digits of a density are all absorbed. -/
theorem absorb_eq {n : Nat} {cs : List Char} (h : Nat.ofDigitChars 10 cs n ≤ Density.greatest) :
    absorb n cs = (Nat.ofDigitChars 10 cs n, 0) := by
  induction cs generalizing n with
  | nil => rfl
  | cons c cs ih =>
    have hm : 10 * n + Decimal.digit c ≤ Density.greatest := (Decimal.le_ofDigitChars _ cs).trans h
    show (if 10 * n + Decimal.digit c ≤ Density.greatest then absorb _ cs else _) = _
    rw [if_pos hm]
    exact ih h

theorem isFinite_ofInt {n : Int} (hleast : Stamp.least ≤ n) (hgreatest : n ≤ Density.greatest) :
    (ofInt n).isFinite = true := by
  have hl : Stamp.least = -9223372036854775808 := rfl
  have hg : Density.greatest = 18446744073709551615 := rfl
  have hdigits : (ofInt n).digits ≤ Density.greatest := by
    cases n with
    | ofNat n => exact Int.ofNat_le.1 hgreatest
    | negSucc n =>
      show n + 1 ≤ Density.greatest
      omega
  have hvalue : Nat.ofDigitChars 10 (Decimal.ofNat (ofInt n).digits) 0 = (ofInt n).digits :=
    Decimal.value_ofNat _
  have hall := absorb_eq (hvalue ▸ hdigits)
  simp [isFinite, hall, (whole_ofInt n).2]

end Footage.Json.Numeral
