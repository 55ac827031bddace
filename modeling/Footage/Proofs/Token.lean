import Mathlib.Data.List.TakeWhile
import Footage.Proofs.Json.Fields
import Footage.Proofs.Text.Base64Url
import Footage.Token

/-!
# Tokens name their keys

A token is decoded to the key that it was made from, with or without blanks around it, and is refused
for every other partition.
-/

namespace Footage

namespace Text

theorem dropWhile_eq_self {cs : List Char} (h : ∀ c ∈ cs, isBlank c = false) :
    cs.dropWhile isBlank = cs := by
  rcases cs with _ | ⟨c, cs⟩
  · rfl
  · rw [List.dropWhile_cons, h c List.mem_cons_self]
    rfl

theorem trim_append {w w' cs : List Char} (hw : ∀ c ∈ w, isBlank c) (hw' : ∀ c ∈ w', isBlank c)
    (hcs : ∀ c ∈ cs, isBlank c = false) : trim (w ++ (cs ++ w')) = cs := by
  have hfront : (cs ++ w').dropWhile isBlank = cs ++ (if cs = [] then [] else w') := by
    rcases cs with _ | ⟨c, cs⟩
    · exact List.dropWhile_eq_nil_iff.2 hw'
    · rw [List.cons_append, List.dropWhile_cons, hcs c List.mem_cons_self]
      rfl
  have hback : ∀ c ∈ (if cs = [] then [] else w').reverse, isBlank c := by
    intro c hc
    by_cases h : cs = []
    · rw [if_pos h] at hc
      exact absurd hc List.not_mem_nil
    · rw [if_neg h, List.mem_reverse] at hc
      exact hw' c hc
  unfold trim
  rw [List.dropWhile_append_of_pos hw, hfront, List.reverse_append, List.dropWhile_append_of_pos hback,
    dropWhile_eq_self fun c hc => hcs c (List.mem_reverse.1 hc), List.reverse_reverse]

theorem ofBytes?_bytes (s : String) : ofBytes? (bytes s) = some s := by
  unfold ofBytes? bytes String.fromUTF8?
  rw [Array.toArray_toList, dif_pos s.isValidUTF8]
  rfl

theorem symbolsOfBytes_bytes (s : String) : symbolsOfBytes (bytes s) = symbols s := by
  unfold symbolsOfBytes
  rw [ofBytes?_bytes]

end Text

theorem Base64Url.isBlank_symbol : ∀ n < 64, Text.isBlank (symbol n) = false := by decide

theorem Base64Url.not_isBlank_of_mem_encode {bytes : List UInt8} {c : Char} (h : c ∈ encode bytes) :
    Text.isBlank c = false := by
  obtain ⟨n, hn, rfl⟩ := List.mem_map.1 h
  exact isBlank_symbol n (lt_of_mem_split bytes n hn)

theorem Key.whole_toValue (k : Key) : k.toValue.Whole :=
  ⟨trivial, Json.Numeral.whole_ofInt k.sort, trivial⟩

theorem Key.ofValue?_toValue {k : Key} (h : Stamp.Fits k.sort) : ofValue? k.toValue = some k := by
  have hsort : Json.Value.toStamp? (.int k.sort) = some k.sort := Json.Value.toStamp?_int h
  have hfields : k.toValue.fields? fieldNames =
      some [some (.str k.partition), some (.int k.sort)] := by
    rfl
  unfold ofValue?
  rw [hfields]
  simp [Json.Value.required, hsort, Json.Value.toString?, Json.Value.str]

namespace Token

theorem decode_blanks {k : Key} (h : Stamp.Fits k.sort) {w w' : List Char}
    (hw : ∀ c ∈ w, Text.isBlank c) (hw' : ∀ c ∈ w', Text.isBlank c) (partition : String) :
    decode partition (String.ofList (w ++ ((encode k).toList ++ w'))) =
      if k.partition = partition then .ok k else .error (.foreign k.partition partition) := by
  have hcs : ∀ c ∈ Base64Url.encode (Text.bytes k.toValue.text), Text.isBlank c = false :=
    fun c hc => Base64Url.not_isBlank_of_mem_encode hc
  unfold decode encode
  rw [String.toList_ofList, String.toList_ofList, Text.trim_append hw hw' hcs, Base64Url.decode_encode]
  simp only [Text.symbolsOfBytes_bytes, Json.Value.ofSymbols?_text k.whole_toValue, Option.bind_some,
    Key.ofValue?_toValue h]

/-- A token is decoded to the key that it was made from. -/
theorem decode_encode {k : Key} (h : Stamp.Fits k.sort) : decode k.partition (encode k) = .ok k := by
  have hnone : ∀ c ∈ [], Text.isBlank c := fun _ hc => absurd hc List.not_mem_nil
  have hd := decode_blanks h hnone hnone k.partition
  rw [if_pos rfl, List.nil_append, List.append_nil, String.ofList_toList] at hd
  exact hd

end Token

end Footage
