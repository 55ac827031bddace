import Footage.Text.Base64Url

/-!
# Base64 is read as it is written

Every group of six bits has a character of its own, and bytes are what their groups are joined to.
-/

namespace Footage.Base64Url

theorem sextet?_symbol : ∀ n < 64, sextet? (symbol n) = some n := by decide

/-- The characters with which bytes are written. -/
def alphabet : String := "ABCDEFGHIJKLMNOPQRSTUVWXYZabcdefghijklmnopqrstuvwxyz0123456789-_"

theorem symbol_mem_alphabet : ∀ n < 64, symbol n ∈ alphabet.toList := by decide +kernel

theorem lt_of_mem_split (bytes : List UInt8) : ∀ n ∈ split bytes, n < 64 := by
  fun_induction split bytes with
  | case1 a b c rest ih =>
    have ha := a.toNat_lt
    have hb := b.toNat_lt
    have hc := c.toNat_lt
    simp only [List.mem_cons]
    rintro n (rfl | rfl | rfl | rfl | hn)
    · omega
    · omega
    · omega
    · omega
    · exact ih n hn
  | case2 a b =>
    have ha := a.toNat_lt
    have hb := b.toNat_lt
    simp only [List.mem_cons, List.not_mem_nil, or_false]
    rintro n (rfl | rfl | rfl) <;> omega
  | case3 a =>
    have ha := a.toNat_lt
    simp only [List.mem_cons, List.not_mem_nil, or_false]
    rintro n (rfl | rfl) <;> omega
  | case4 => exact fun n hn => absurd hn List.not_mem_nil

theorem mem_alphabet_of_mem_encode {bytes : List UInt8} {c : Char} (h : c ∈ encode bytes) :
    c ∈ alphabet.toList := by
  obtain ⟨n, hn, rfl⟩ := List.mem_map.1 h
  exact symbol_mem_alphabet n (lt_of_mem_split bytes n hn)

theorem ofNat_eq {a : UInt8} {n : Nat} (h : n % 256 = a.toNat) : UInt8.ofNat n = a := by
  apply UInt8.toNat_inj.1
  rw [UInt8.toNat_ofNat']
  exact h

theorem join_split (bytes : List UInt8) : join (split bytes) = some bytes := by
  fun_induction split bytes with
  | case1 a b c rest ih =>
    have ha := a.toNat_lt
    have hb := b.toNat_lt
    have hc := c.toNat_lt
    rw [join, ih, ofNat_eq (a := a) (by omega), ofNat_eq (a := b) (by omega),
      ofNat_eq (a := c) (by omega)]
    rfl
  | case2 a b =>
    have ha := a.toNat_lt
    have hb := b.toNat_lt
    rw [join, if_pos (by omega), ofNat_eq (a := a) (by omega), ofNat_eq (a := b) (by omega)]
  | case3 a =>
    have ha := a.toNat_lt
    rw [join, if_pos (by omega), ofNat_eq (a := a) (by omega)]
  | case4 => rfl

theorem mapM_sextet? {ns : List Nat} (h : ∀ n ∈ ns, n < 64) : (ns.map symbol).mapM sextet? = some ns := by
  induction ns with
  | nil => rfl
  | cons n ns ih =>
    rw [List.map_cons, List.mapM_cons, sextet?_symbol n (h n List.mem_cons_self),
      ih fun m hm => h m (List.mem_cons_of_mem _ hm)]
    rfl

theorem decode_encode (bytes : List UInt8) : decode (encode bytes) = some bytes := by
  unfold decode encode
  rw [mapM_sextet? (lt_of_mem_split bytes)]
  exact join_split bytes

end Footage.Base64Url
