import Mathlib.Data.List.Forall2
import Footage.Json.Fields
import Footage.Proofs.Json.Numeral

/-!
# The texts of a value

A value can be written in many ways. The characters of a string stand for themselves or are escaped, and there
may be blanks between any two lexemes. `Value.IsText` says which texts write a value.

1. `CharSpelling` has the ways to write a character inside a string.
2. `Writes` has those to write a lexeme, and `Spaced` those to write lexemes with blanks around them.
3. The printer's text is one of them (`Value.isText_text`).
-/

namespace Footage.Json

/-! ## Strings -/

/-- The character is the hexadecimal digit `d`, in either case. -/
def IsHexDigit (c : Char) (d : Nat) : Prop := d < 16 ∧ (c = hexDigit d ∨ c = (hexDigit d).toUpper)

instance (c : Char) (d : Nat) : Decidable (IsHexDigit c d) :=
  inferInstanceAs (Decidable (d < 16 ∧ (c = hexDigit d ∨ c = (hexDigit d).toUpper)))

/-- The characters are four hexadecimal digits that write the number. -/
def HexDigits (u : Nat) (cs : List Char) : Prop :=
  ∃ ds, List.Forall₂ IsHexDigit cs ds ∧ ds.length = 4 ∧ ds.foldl (fun v d => v * 16 + d) 0 = u

/-- The letters that follow a backslash, and the characters that they stand for. -/
def shortEscapes : List (Char × Char) :=
  [('"', '"'), ('\\', '\\'), ('/', '/'), ('b', '\x08'), ('f', '\x0c'), ('n', '\n'), ('r', '\r'), ('t', '\t')]

/-- The ways to write a character inside a string: as itself, by a letter, by its number, or by the two halves
of a surrogate pair. -/
inductive CharSpelling : Char → List Char → Prop
  | plain {c : Char} (hquote : c ≠ '"') (hslash : c ≠ '\\') (hcontrol : 0x20 ≤ c.toNat) : CharSpelling c [c]
  | short {c e : Char} (h : (e, c) ∈ shortEscapes) : CharSpelling c ['\\', e]
  | unit {c : Char} {cs : List Char} (h : HexDigits c.toNat cs) : CharSpelling c ('\\' :: 'u' :: cs)
  | pair {c : Char} {cs cs' : List Char} (hc : 0x10000 ≤ c.toNat)
      (h : HexDigits (0xD800 + (c.toNat - 0x10000) / 0x400) cs)
      (h' : HexDigits (0xDC00 + (c.toNat - 0x10000) % 0x400) cs') :
      CharSpelling c ('\\' :: 'u' :: cs ++ '\\' :: 'u' :: cs')

/-- The ways to write the characters of a string. -/
inductive StringSpelling : List Char → List Char → Prop
  | nil : StringSpelling [] []
  | cons {c : Char} {s cs cs' : List Char} (h : CharSpelling c cs) (h' : StringSpelling s cs') :
      StringSpelling (c :: s) (cs ++ cs')

theorem charSpelling_escaped (c : Char) : CharSpelling c (escaped c) := by
  unfold escaped
  by_cases h₁ : c = '"'
  · subst h₁
    exact .short (by decide)
  by_cases h₂ : c = '\\'
  · subst h₂
    exact .short (by decide)
  by_cases h₃ : c = '\x08'
  · subst h₃
    exact .short (by decide)
  by_cases h₄ : c = '\x0c'
  · subst h₄
    exact .short (by decide)
  by_cases h₅ : c = '\n'
  · subst h₅
    exact .short (by decide)
  by_cases h₆ : c = '\r'
  · subst h₆
    exact .short (by decide)
  by_cases h₇ : c = '\t'
  · subst h₇
    exact .short (by decide)
  simp only [h₁, h₂, h₃, h₄, h₅, h₆, h₇, if_false]
  by_cases h₈ : c.toNat < 0x20
  · rw [if_pos h₈]
    have hdigit (d : Nat) (hd : d < 16) : IsHexDigit (hexDigit d) d := ⟨hd, .inl rfl⟩
    refine .unit ⟨[0, 0, c.toNat / 16, c.toNat % 16], ?_, rfl, ?_⟩
    · exact .cons (hdigit 0 (by omega)) (.cons (hdigit 0 (by omega))
        (.cons (hdigit _ (by omega)) (.cons (hdigit _ (by omega)) .nil)))
    · show ((0 * 16 + 0) * 16 + c.toNat / 16) * 16 + c.toNat % 16 = c.toNat
      omega
  · rw [if_neg h₈]
    exact .plain h₁ h₂ (by omega)

theorem stringSpelling_escaped (s : List Char) : StringSpelling s (s.flatMap escaped) := by
  induction s with
  | nil => exact .nil
  | cons c s ih =>
    rw [List.flatMap_cons]
    exact .cons (charSpelling_escaped c) ih

/-! ## Lexemes -/

/-- The ways to write a lexeme. A number is whole, and a string that is not usable is written as half of a
surrogate pair. -/
inductive Writes : Lexeme → List Char → Prop
  | openObject : Writes .openObject ['\x7b']
  | closeObject : Writes .closeObject ['\x7d']
  | openArray : Writes .openArray ['[']
  | closeArray : Writes .closeArray [']']
  | comma : Writes .comma [',']
  | colon : Writes .colon [':']
  | null : Writes .null "null".toList
  | truth (b : Bool) : Writes (.truth b) (if b then "true" else "false").toList
  | number {n : Numeral} (h : n.Whole) : Writes (.number n) n.chars
  | string {s : String} {cs : List Char} (h : StringSpelling s.toList cs) :
      Writes (.string (some s)) ('"' :: cs ++ ['"'])
  | unusable : Writes (.string none) (quoted none)

/-- The blanks between lexemes. -/
def IsGap (cs : List Char) : Prop := ∀ c ∈ cs, c ∈ [' ', '\t', '\n', '\r']

/-- The ways to write lexemes, with blanks before each and at the end. -/
inductive Spaced : List Lexeme → List Char → Prop
  | nil {gap : List Char} (hgap : IsGap gap) : Spaced [] gap
  | cons {gap cs rest : List Char} {l : Lexeme} {ls : List Lexeme} (hgap : IsGap gap) (hl : Writes l cs)
      (h : Spaced ls rest) : Spaced (l :: ls) (gap ++ (cs ++ rest))

theorem isGap_nil : IsGap [] := fun _ hc => absurd hc List.not_mem_nil

theorem Spaced.next {l : Lexeme} {ls : List Lexeme} {cs rest : List Char} (hl : Writes l cs)
    (h : Spaced ls rest) : Spaced (l :: ls) (cs ++ rest) :=
  .cons isGap_nil hl h

theorem writes_quoted (s : Option String) : Writes (.string s) (quoted s) := by
  cases s with
  | none => exact .unusable
  | some s => exact .string (stringSpelling_escaped s.toList)

/-! ## Values -/

namespace Value

mutual

/-- All numbers are whole. -/
def Whole : Value → Prop
  | number n => n.Whole
  | array vs => ItemsWhole vs
  | object ms => MembersWhole ms
  | _ => True

def ItemsWhole : List Value → Prop
  | [] => True
  | v :: vs => v.Whole ∧ ItemsWhole vs

def MembersWhole : List (Option String × Value) → Prop
  | [] => True
  | (_, v) :: ms => v.Whole ∧ MembersWhole ms

end

/-- Members are written whole if their values are. -/
theorem whole_record {members : List (String × Value)} (h : ∀ m ∈ members, m.2.Whole) :
    (record members).Whole := by
  induction members with
  | nil => trivial
  | cons m members ih =>
    exact ⟨h m List.mem_cons_self, ih fun m hm => h m (List.mem_cons_of_mem _ hm)⟩

theorem whole_array {items : List Value} (h : ∀ v ∈ items, v.Whole) : (array items).Whole := by
  induction items with
  | nil => trivial
  | cons v items ih => exact ⟨h v List.mem_cons_self, ih fun v hv => h v (List.mem_cons_of_mem _ hv)⟩

mutual

/-- The lexemes that write a value. -/
def lexemes : Value → List Lexeme
  | null => [.null]
  | truth b => [.truth b]
  | number n => [.number n]
  | string s => [.string s]
  | array [] => [.openArray, .closeArray]
  | array (v :: vs) => .openArray :: v.lexemes ++ itemLexemes vs
  | object [] => [.openObject, .closeObject]
  | object ((n, v) :: ms) => .openObject :: .string n :: .colon :: v.lexemes ++ memberLexemes ms

/-- The items of an array after its first, and its end. -/
def itemLexemes : List Value → List Lexeme
  | [] => [.closeArray]
  | v :: vs => .comma :: v.lexemes ++ itemLexemes vs

/-- The members of an object after its first, and its end. -/
def memberLexemes : List (Option String × Value) → List Lexeme
  | [] => [.closeObject]
  | (n, v) :: ms => .comma :: .string n :: .colon :: v.lexemes ++ memberLexemes ms

end

/-- The text writes the value. -/
def IsText (v : Value) (s : String) : Prop := Spaced v.lexemes s.toList

/-- A name, the colon after it, and what follows. -/
theorem spaced_name (n : Option String) {ls : List Lexeme} {rest : List Char} (h : Spaced ls rest) :
    Spaced (.string n :: .colon :: ls) (quoted n ++ ':' :: rest) :=
  .next (writes_quoted n) (.next .colon h)

mutual

theorem spaced_value (v : Value) (h : v.Whole) {ls : List Lexeme} {rest : List Char} (hrest : Spaced ls rest) :
    Spaced (v.lexemes ++ ls) (v.chars ++ rest) := by
  match v, h with
  | .null, _ => exact .next .null hrest
  | .truth true, _ => exact .next (.truth true) hrest
  | .truth false, _ => exact .next (.truth false) hrest
  | .number n, h =>
    have hw : n.written = n.chars := by
      unfold Numeral.written
      rw [if_pos h.1, List.append_nil]
    rw [chars, hw]
    exact .next (.number h) hrest
  | .string s, _ => exact .next (writes_quoted s) hrest
  | .array [], _ =>
    have hend := Spaced.next .closeArray hrest
    simpa [lexemes, chars] using Spaced.next .openArray hend
  | .array (v :: vs), h =>
    have hitems := spaced_value v h.1 (spaced_items vs h.2 hrest)
    simpa [lexemes, chars] using Spaced.next .openArray hitems
  | .object [], _ =>
    have hend := Spaced.next .closeObject hrest
    simpa [lexemes, chars] using Spaced.next .openObject hend
  | .object ((n, v) :: ms), h =>
    have hmember := spaced_name n (spaced_value v h.1 (spaced_members ms h.2 hrest))
    simpa [lexemes, chars] using Spaced.next .openObject hmember

theorem spaced_items (vs : List Value) (h : ItemsWhole vs) {ls : List Lexeme} {rest : List Char}
    (hrest : Spaced ls rest) : Spaced (itemLexemes vs ++ ls) (itemChars vs ++ rest) := by
  match vs, h with
  | [], _ => exact .next .closeArray hrest
  | v :: vs, h =>
    have hitems := spaced_value v h.1 (spaced_items vs h.2 hrest)
    simpa [itemLexemes, itemChars] using Spaced.next .comma hitems

theorem spaced_members (ms : List (Option String × Value)) (h : MembersWhole ms) {ls : List Lexeme}
    {rest : List Char} (hrest : Spaced ls rest) : Spaced (memberLexemes ms ++ ls) (memberChars ms ++ rest) := by
  match ms, h with
  | [], _ => exact .next .closeObject hrest
  | (n, v) :: ms, h =>
    have hmember := spaced_name n (spaced_value v h.1 (spaced_members ms h.2 hrest))
    simpa [memberLexemes, memberChars] using Spaced.next .comma hmember

end

theorem isText_text {v : Value} (h : v.Whole) : v.IsText v.text := by
  have hspaced := spaced_value v h (.nil isGap_nil)
  rw [List.append_nil, List.append_nil] at hspaced
  unfold IsText text
  rwa [String.toList_ofList]

end Value

end Footage.Json
