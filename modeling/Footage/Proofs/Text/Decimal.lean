import Footage.Text.Decimal

/-!
# Written numbers

The digits of a number write it, and begin with a zero only if that is the number. A text is read exactly if
it denotes a stored number, and as that number (`read_eq_ok_iff`). So every stored number is read back from
what it is written as (`read_ofInt`).
-/

namespace Footage.Decimal

theorem value_ofNat (n : Nat) : value (ofNat n) = n := Nat.ofDigitChars_ten_toDigits

theorem isDigit_of_mem_ofNat {n : Nat} {c : Char} (h : c ∈ ofNat n) : c.isDigit :=
  Nat.isDigit_of_mem_toDigits (by decide) (by decide) h

theorem ofNat_ne_nil (n : Nat) : ofNat n ≠ [] := Nat.toDigits_ne_nil

theorem length_ofNat_of_head? {n : Nat} (h : (ofNat n).head? = some '0') : (ofNat n).length = 1 := by
  induction n using Nat.strongRecOn with
  | ind n ih =>
    by_cases hn : n < 10
    · unfold ofNat
      rw [Nat.toDigits_of_lt_base hn]
      rfl
    · have hsplit : ofNat n = ofNat (n / 10) ++ [(n % 10).digitChar] :=
        Nat.toDigits_of_base_le (by decide) (by omega)
      obtain ⟨c, cs, hcons⟩ := List.exists_cons_of_ne_nil (ofNat_ne_nil (n / 10))
      rw [hsplit, hcons, List.cons_append, List.head?_cons] at h
      -- the tenth of `n` would be written as a zero
      obtain rfl := Option.some.inj h
      have hlen := ih (n / 10) (by omega) (by rw [hcons]; rfl)
      rw [hcons, List.length_cons] at hlen
      obtain rfl : cs = [] := List.eq_nil_of_length_eq_zero (by omega)
      have hzero : n / 10 = 0 := by
        rw [← value_ofNat (n / 10), hcons]
        rfl
      omega

/-! ## Reading -/

/-- Digits, of which there is at least one. -/
structure IsDigits (cs : List Char) : Prop where
  ne_nil : cs ≠ []
  isDigit : ∀ c ∈ cs, c.isDigit

/-- The text denotes the number: digits, with one sign in front of them or none. -/
inductive Denotes : List Char → Int → Prop
  | plain {ds : List Char} (h : IsDigits ds) : Denotes ds (value ds)
  | plus {ds : List Char} (h : IsDigits ds) : Denotes ('+' :: ds) (value ds)
  | minus {ds : List Char} (h : IsDigits ds) : Denotes ('-' :: ds) (-(value ds : Int))

/-- A number counted upwards, or downwards if it is negative. -/
def signed (negative : Bool) (k : Nat) : Int := if negative then -(k : Int) else k

theorem signed_step (negative : Bool) (k d : Nat) :
    (if negative then 10 * signed negative k - d else 10 * signed negative k + d) =
      signed negative (10 * k + d) := by
  cases negative
  · show (10 * (k : Int) + d) = ((10 * k + d : Nat) : Int)
    omega
  · show (10 * -(k : Int) - d) = -((10 * k + d : Nat) : Int)
    omega

theorem fits_signed_of_le {negative : Bool} {k l : Nat} (hle : k ≤ l) (h : Stamp.Fits (signed negative l)) :
    Stamp.Fits (signed negative k) := by
  have hzero : Stamp.least ≤ 0 ∧ 0 ≤ Stamp.greatest := by decide
  cases negative
  · have hhi : (l : Int) ≤ Stamp.greatest := h.2
    exact ⟨show Stamp.least ≤ (k : Int) by omega, show (k : Int) ≤ Stamp.greatest by omega⟩
  · have hlo : Stamp.least ≤ -(l : Int) := h.1
    exact ⟨show Stamp.least ≤ -(k : Int) by omega, show -(k : Int) ≤ Stamp.greatest by omega⟩

theorem le_ofDigitChars (m : Nat) (cs : List Char) : m ≤ Nat.ofDigitChars 10 cs m := by
  induction cs generalizing m with
  | nil => exact Nat.le_refl m
  | cons c cs ih =>
    rw [Nat.ofDigitChars_cons]
    have := ih (10 * m + (c.toNat - '0'.toNat))
    omega

/-- Digits are read in full exactly if the number that they come to can be stored. That settles it for each
number on the way, since none of them is further from zero. -/
theorem readDigits_eq_ok_iff {negative : Bool} {k : Nat} {n : Int} {cs : List Char}
    (hk : Stamp.Fits (signed negative k)) : readDigits negative (signed negative k) cs = .ok n ↔
      (∀ c ∈ cs, c.isDigit) ∧ n = signed negative (Nat.ofDigitChars 10 cs k) ∧ Stamp.Fits n := by
  induction cs generalizing k with
  | nil =>
    refine ⟨fun h => ?_, fun ⟨_, h, _⟩ => congrArg Except.ok h.symm⟩
    obtain rfl := Except.ok.inj h
    exact ⟨fun _ h => absurd h List.not_mem_nil, rfl, hk⟩
  | cons c cs ih =>
    unfold readDigits
    by_cases hc : c.isDigit
    · have hle : 10 * k + digit c ≤ Nat.ofDigitChars 10 (c :: cs) k := by
        rw [Nat.ofDigitChars_cons]
        exact le_ofDigitChars _ cs
      simp only [hc, if_true, signed_step]
      by_cases hfits : Stamp.Fits (signed negative (10 * k + digit c))
      · rw [if_pos hfits, ih hfits, Nat.ofDigitChars_cons, List.forall_mem_cons]
        exact and_congr_left fun _ => (and_iff_right hc).symm
      · rw [if_neg hfits]
        refine ⟨fun h => absurd h (by simp), ?_⟩
        rintro ⟨-, rfl, h⟩
        exact absurd (fits_signed_of_le hle h) hfits
    · simp only [hc, if_false, Bool.false_eq_true]
      exact ⟨fun h => absurd h (by simp), fun h => absurd (h.1 c List.mem_cons_self) hc⟩

theorem fits_signed_zero (negative : Bool) : Stamp.Fits (signed negative 0) := by cases negative <;> decide

theorem readUnsigned_eq_ok_iff {negative : Bool} {n : Int} {cs : List Char} :
    readUnsigned negative cs = .ok n ↔ IsDigits cs ∧ n = signed negative (value cs) ∧ Stamp.Fits n := by
  cases cs with
  | nil => exact ⟨fun h => absurd h (by simp [readUnsigned]), fun h => absurd rfl h.1.ne_nil⟩
  | cons c cs =>
    have hread := @readDigits_eq_ok_iff negative 0 n (c :: cs) (fits_signed_zero negative)
    have hzero : signed negative 0 = 0 := by cases negative <;> rfl
    rw [hzero] at hread
    exact hread.trans (and_congr_left fun _ => ⟨fun h => ⟨List.cons_ne_nil c cs, h⟩, IsDigits.isDigit⟩)

/-- Digits that begin a number are not taken for a sign. -/
theorem read_digits {ds : List Char} (h : IsDigits ds) : read ds = readUnsigned false ds := by
  rcases ds with _ | ⟨c, cs⟩
  · exact absurd rfl h.ne_nil
  · have hc : c.isDigit = true := h.isDigit c List.mem_cons_self
    unfold read
    split
    · next h => exact absurd h (by simp)
    · next h =>
      obtain ⟨rfl, -⟩ := List.cons.inj h
      exact absurd hc (by decide)
    · next h =>
      obtain ⟨rfl, -⟩ := List.cons.inj h
      exact absurd hc (by decide)
    · rfl

/-- What is read is the stored number that the text denotes. -/
theorem read_eq_ok_iff {n : Int} {cs : List Char} : read cs = .ok n ↔ Denotes cs n ∧ Stamp.Fits n := by
  constructor
  · intro h
    unfold read at h
    split at h
    · exact absurd h (by simp)
    · obtain ⟨hds, rfl, hfits⟩ := readUnsigned_eq_ok_iff.1 h
      exact ⟨.plus hds, hfits⟩
    · obtain ⟨hds, rfl, hfits⟩ := readUnsigned_eq_ok_iff.1 h
      exact ⟨.minus hds, hfits⟩
    · next hne _ _ =>
      obtain ⟨hds, rfl, hfits⟩ := (readDigits_eq_ok_iff (fits_signed_zero false)).1 h
      exact ⟨.plain ⟨hne, hds⟩, hfits⟩
  · rintro ⟨h, hfits⟩
    cases h with
    | plain h =>
      rw [read_digits h]
      exact readUnsigned_eq_ok_iff.2 ⟨h, rfl, hfits⟩
    | plus h => exact readUnsigned_eq_ok_iff.2 ⟨h, rfl, hfits⟩
    | minus h => exact readUnsigned_eq_ok_iff.2 ⟨h, rfl, hfits⟩

theorem fits_of_read {m : Int} {cs : List Char} (h : read cs = .ok m) : Stamp.Fits m :=
  (read_eq_ok_iff.1 h).2

/-! ## Reading back -/

theorem isDigits_ofNat (n : Nat) : IsDigits (ofNat n) := ⟨ofNat_ne_nil n, fun _ => isDigit_of_mem_ofNat⟩

theorem denotes_ofInt (n : Int) : Denotes (ofInt n) n := by
  cases n with
  | ofNat n =>
    have h := Denotes.plain (isDigits_ofNat n)
    rwa [value_ofNat] at h
  | negSucc n =>
    have h := Denotes.minus (isDigits_ofNat (n + 1))
    rwa [value_ofNat] at h

theorem read_ofInt {n : Int} (h : Stamp.Fits n) : read (ofInt n) = .ok n :=
  read_eq_ok_iff.2 ⟨denotes_ofInt n, h⟩

end Footage.Decimal
