import Mathlib.Data.List.Chain
import Footage.Proofs.Json.Spelling

/-!
# The lexemes of a text

The reader of lexemes goes through any text that writes some lexemes and finds these (`read_spaced`). A string
ends at its quote. A number or a word ends only where something else follows, so no two of them may stand side
by side; in what writes a value they never do (`apart_value`).
-/

namespace Footage.Json

namespace Lexeme

theorem read_step {m m' : Mode} {ls seen : List Lexeme} {c : Char} {cs : List Char}
    (h : step m (some c) = some (ls, m')) :
    read m seen ((c :: cs).map some) = read m' (ls.reverse ++ seen) (cs.map some) := by
  rw [List.map_cons, read, h]

/-! ## Strings -/

/-- Inside a string, `cs` is read as pieces that make up the characters `s`, whatever stands around. -/
def Spells (cs s : List Char) : Prop :=
  ∃ ps, (∀ before seen rest, read (.string before) seen ((cs ++ rest).map some) =
      read (.string (ps.reverse ++ before)) seen (rest.map some)) ∧
    ∀ after, Piece.assemble (ps ++ after) = (Piece.assemble after).map (s ++ ·)

theorem spells_nil : Spells [] [] := ⟨[], fun _ _ _ => rfl, fun after => by simp⟩

theorem Spells.append {cs cs' s s' : List Char} (h : Spells cs s) (h' : Spells cs' s') :
    Spells (cs ++ cs') (s ++ s') := by
  obtain ⟨ps, hread, hmake⟩ := h
  obtain ⟨ps', hread', hmake'⟩ := h'
  refine ⟨ps ++ ps', fun before seen rest => ?_, fun after => ?_⟩
  · rw [List.append_assoc, hread, hread', List.reverse_append, List.append_assoc]
  · rw [List.append_assoc, hmake, hmake', Option.map_map]
    simp [Function.comp_def]

theorem assemble_unit {u : Nat} (hhigh : ¬ Piece.IsHigh u) (hlow : ¬ Piece.IsLow u) (ps : List Piece) :
    Piece.assemble (.unit u :: ps) = (Piece.assemble ps).map (Char.ofNat u :: ·) := by
  rcases ps with _ | ⟨p | v | -, ps⟩ <;> simp [Piece.assemble, hhigh, hlow]

theorem assemble_pair {u v : Nat} (hu : Piece.IsHigh u) (hv : Piece.IsLow v) (ps : List Piece) :
    Piece.assemble (.unit u :: .unit v :: ps) = (Piece.assemble ps).map (Piece.ofPair u v :: ·) := by
  simp [Piece.assemble, hu, hv]

/-- A character is neither half of a surrogate pair. -/
theorem not_surrogate (c : Char) : ¬ Piece.IsHigh c.toNat ∧ ¬ Piece.IsLow c.toNat := by
  have hvalid : c.toNat < 0xD800 ∨ 0xDFFF < c.toNat ∧ c.toNat < 0x110000 := c.valid
  unfold Piece.IsHigh Piece.IsLow
  omega

theorem hexDigit?_hexDigit :
    ∀ d < 16, hexDigit? (hexDigit d) = some d ∧ hexDigit? (hexDigit d).toUpper = some d := by decide

theorem hexDigit?_eq {c : Char} {d : Nat} (h : IsHexDigit c d) : hexDigit? c = some d := by
  obtain ⟨hd, rfl | rfl⟩ := h
  · exact (hexDigit?_hexDigit d hd).1
  · exact (hexDigit?_hexDigit d hd).2

theorem read_hex {cs : List Char} {ds : List Nat} (h : List.Forall₂ IsHexDigit cs ds) (hne : cs ≠ [])
    (before : List Piece) (value : Nat) (seen : List Lexeme) (rest : List Char) :
    read (.hex before cs.length value) seen ((cs ++ rest).map some) =
      read (.string (.unit (ds.foldl (fun v d => v * 16 + d) value) :: before)) seen (rest.map some) := by
  induction h generalizing value with
  | nil => exact absurd rfl hne
  | @cons c d cs ds hc hcs ih =>
    have hstep : step (.hex before (c :: cs).length value) (some c) = some ([],
        if (c :: cs).length = 1 then .string (.unit (value * 16 + d) :: before)
        else .hex before ((c :: cs).length - 1) (value * 16 + d)) := by
      simp only [step, hexDigit?_eq hc]
      rfl
    rw [List.cons_append, read_step hstep, List.reverse_nil, List.nil_append, List.foldl_cons]
    rcases hcs with _ | ⟨hc', hcs⟩
    · rfl
    · rw [if_neg (by simp)]
      exact ih (by simp) _

/-- A number in an escape is read as a unit. -/
theorem read_unit {u : Nat} {cs : List Char} (h : HexDigits u cs) (before : List Piece) (seen : List Lexeme)
    (rest : List Char) :
    read (.string before) seen (('\\' :: 'u' :: cs ++ rest).map some) =
      read (.string (.unit u :: before)) seen (rest.map some) := by
  obtain ⟨ds, hds, hlen, rfl⟩ := h
  have hfour : cs.length = 4 := hds.length_eq.trans hlen
  have hslash : step (.string before) (some '\\') = some ([], .escape before) := rfl
  have hu : step (.escape before) (some 'u') = some ([], .hex before cs.length 0) := by
    rw [hfour]
    rfl
  rw [List.cons_append, List.cons_append, read_step hslash, read_step hu]
  exact read_hex hds (fun hnil => by simp [hnil] at hfour) before 0 seen rest

theorem spells_short {c e : Char} (h : (e, c) ∈ shortEscapes) : Spells ['\\', e] [c] := by
  refine ⟨[.char c], fun before seen rest => ?_, fun _ => rfl⟩
  simp only [shortEscapes, List.mem_cons, Prod.mk.injEq, List.not_mem_nil, or_false] at h
  rcases h with ⟨rfl, rfl⟩ | ⟨rfl, rfl⟩ | ⟨rfl, rfl⟩ | ⟨rfl, rfl⟩ | ⟨rfl, rfl⟩ | ⟨rfl, rfl⟩ | ⟨rfl, rfl⟩ |
    ⟨rfl, rfl⟩ <;> rfl

theorem spells_of_charSpelling {c : Char} {cs : List Char} (h : CharSpelling c cs) : Spells cs [c] := by
  cases h with
  | plain hquote hslash hcontrol =>
    refine ⟨[.char c], fun before seen rest => ?_, fun _ => rfl⟩
    have hstep : step (.string before) (some c) = some ([], .string (.char c :: before)) := by
      simp only [step, hquote, hslash, Nat.not_lt.2 hcontrol, if_false]
    exact read_step hstep
  | short h => exact spells_short h
  | unit h =>
    refine ⟨[.unit c.toNat], read_unit h, fun after => ?_⟩
    rw [List.singleton_append, assemble_unit (not_surrogate c).1 (not_surrogate c).2, Char.ofNat_toNat]
    rfl
  | pair hc h h' =>
    have hvalid : c.toNat < 0xD800 ∨ 0xDFFF < c.toNat ∧ c.toNat < 0x110000 := c.valid
    generalize hu : 0xD800 + (c.toNat - 0x10000) / 0x400 = u at h
    generalize hv : 0xDC00 + (c.toNat - 0x10000) % 0x400 = v at h'
    have hhigh : Piece.IsHigh u := ⟨by omega, by omega⟩
    have hlow : Piece.IsLow v := ⟨by omega, by omega⟩
    have hofPair : Piece.ofPair u v = c := by
      unfold Piece.ofPair
      rw [show 0x10000 + (u - 0xD800) * 0x400 + (v - 0xDC00) = c.toNat by omega, Char.ofNat_toNat]
    refine ⟨[.unit u, .unit v], fun before seen rest => ?_, fun after => ?_⟩
    · rw [List.append_assoc, read_unit h, read_unit h']
      rfl
    · show Piece.assemble (.unit u :: .unit v :: after) = _
      rw [assemble_pair hhigh hlow, hofPair]
      rfl

theorem spells_of_stringSpelling {s cs : List Char} (h : StringSpelling s cs) : Spells cs s := by
  induction h with
  | nil => exact spells_nil
  | cons h _ ih => exact (spells_of_charSpelling h).append ih

theorem Spells.read_between {cs : List Char} {s : String} (h : Spells cs s.toList) (seen : List Lexeme)
    (rest : List Char) :
    read .between seen (('"' :: cs ++ '"' :: rest).map some) =
      read .between (.string (some s) :: seen) (rest.map some) := by
  obtain ⟨ps, hread, hmake⟩ := h
  have hopen : step .between (some '"') = some ([], .string []) := rfl
  have hclose : step (.string ps.reverse) (some '"') = some ([string (some s)], .between) := by
    have hall : Piece.assemble ps = some s.toList := by
      have := hmake []
      rwa [List.append_nil, Piece.assemble, Option.map_some, List.append_nil] at this
    simp [step, ofPieces, hall]
  rw [List.cons_append, read_step hopen, hread, List.append_nil]
  exact read_step hclose

/-! ## Numbers and words -/

/-- The text goes on with nothing that a number or a word could go on with. -/
def Breaks (rest : List Char) : Prop := ∀ c ∈ rest.head?, isNumeralChar c = false ∧ c.isLower = false

theorem breaks_nil : Breaks [] := fun c h => absurd h (by simp)

theorem breaks_cons {c : Char} (h : isNumeralChar c = false ∧ c.isLower = false) (rest : List Char) :
    Breaks (c :: rest) := by
  intro d hd
  obtain rfl := Option.some.inj hd
  exact h

theorem read_numeral {cs : List Char} (h : ∀ c ∈ cs, isNumeralChar c) (before : List Char)
    (seen : List Lexeme) (rest : List Char) :
    read (.numeral before) seen ((cs ++ rest).map some) =
      read (.numeral (cs.reverse ++ before)) seen (rest.map some) := by
  induction cs generalizing before with
  | nil => rfl
  | cons c cs ih =>
    have hc : step (.numeral before) (some c) = some ([], .numeral (c :: before)) := by
      simp [step, h c List.mem_cons_self]
    rw [List.cons_append, read_step hc, List.reverse_nil, List.nil_append,
      ih (fun d hd => h d (List.mem_cons_of_mem _ hd)), List.reverse_cons, List.append_assoc,
      List.singleton_append]

/-- A number ends where something else follows. -/
theorem read_numeral_end {cs : List Char} {n : Numeral} (hn : Numeral.ofChars? cs.reverse = some n)
    (seen : List Lexeme) {rest : List Char} (hrest : Breaks rest) :
    read (.numeral cs) seen (rest.map some) = read .between (.number n :: seen) (rest.map some) := by
  rcases rest with _ | ⟨c, rest⟩
  · simp [read, finish, hn]
  · obtain ⟨hc, -⟩ := hrest c rfl
    rw [List.map_cons, read, read]
    simp only [step, hc, Bool.false_eq_true, if_false, hn, Option.bind_eq_bind, Option.bind_some]
    rcases start c with _ | ⟨ls, m⟩
    · rfl
    · simp

theorem isNumeralChar_of_mem_chars {n : Numeral} {c : Char} (h : c ∈ n.chars) : isNumeralChar c := by
  unfold Numeral.chars at h
  rcases List.mem_append.1 h with h | h
  · by_cases hn : n.negative
    · rw [if_pos hn, List.mem_singleton] at h
      rw [h]
      decide
    · rw [if_neg hn] at h
      exact absurd h List.not_mem_nil
  · simp [isNumeralChar, Decimal.isDigit_of_mem_ofNat h]

theorem step_numeral {n : Numeral} {c : Char} {cs : List Char} (h : n.chars = c :: cs) :
    step .between (some c) = some ([], .numeral [c]) := by
  have hc : c.isDigit ∨ c = '-' := by
    unfold Numeral.chars at h
    by_cases hn : n.negative
    · rw [if_pos hn] at h
      exact .inr (List.cons.inj h).1.symm
    · rw [if_neg hn, List.nil_append] at h
      exact .inl (Decimal.isDigit_of_mem_ofNat (n := n.digits) (h ▸ List.mem_cons_self))
  have hspace : isSpace c = false := by
    unfold isSpace
    rcases hc with hc | rfl
    · by_contra hs
      simp only [Bool.not_eq_false, Bool.or_eq_true, decide_eq_true_eq] at hs
      rcases hs with ((rfl | rfl) | rfl) | rfl <;> exact absurd hc (by decide)
    · decide
  show start c = _
  unfold start
  rw [hspace, if_neg (by decide), if_pos hc]

theorem read_number {n : Numeral} (h : n.Whole) (seen : List Lexeme) {rest : List Char}
    (hrest : Breaks rest) :
    read .between seen ((n.chars ++ rest).map some) =
      read .between (.number n :: seen) (rest.map some) := by
  rcases hcs : n.chars with _ | ⟨c, cs⟩
  · unfold Numeral.chars at hcs
    exact absurd (List.append_eq_nil_iff.1 hcs).2 (Decimal.ofNat_ne_nil _)
  · have hall : ∀ d ∈ cs, isNumeralChar d := fun d hd =>
      isNumeralChar_of_mem_chars (n := n) (hcs ▸ List.mem_cons_of_mem _ hd)
    have hn : Numeral.ofChars? (cs.reverse ++ [c]).reverse = some n := by
      rw [List.reverse_append, List.reverse_reverse, List.reverse_singleton, List.singleton_append,
        ← hcs]
      exact Numeral.ofChars?_chars h
    rw [List.cons_append, read_step (step_numeral hcs), read_numeral hall]
    exact read_numeral_end hn seen hrest

/-- A word ends where something else follows. -/
theorem read_word_end {cs : List Char} {l : Lexeme} (hl : ofWord? cs.reverse = some l)
    (seen : List Lexeme) {rest : List Char} (hrest : Breaks rest) :
    read (.word cs) seen (rest.map some) = read .between (l :: seen) (rest.map some) := by
  rcases rest with _ | ⟨c, rest⟩
  · simp [read, finish, hl]
  · obtain ⟨-, hc⟩ := hrest c rfl
    rw [List.map_cons, read, read]
    simp only [step, hc, Bool.false_eq_true, if_false, hl, Option.bind_eq_bind, Option.bind_some]
    rcases start c with _ | ⟨ls, m⟩
    · rfl
    · simp

/-! ## Lexemes with blanks -/

/-- The lexeme is a number or a word, which ends where something else follows. -/
def isOpenEnded : Lexeme → Bool
  | null => true
  | truth _ => true
  | number _ => true
  | _ => false

/-- A lexeme is read as it is written. -/
theorem read_writes {l : Lexeme} {cs : List Char} (h : Writes l cs) (seen : List Lexeme) {rest : List Char}
    (hrest : l.isOpenEnded = true → Breaks rest) :
    read .between seen ((cs ++ rest).map some) = read .between (l :: seen) (rest.map some) := by
  cases h with
  | null =>
    have hword : ofWord? "null".toList.reverse.reverse = some .null := rfl
    exact read_word_end hword seen (hrest rfl)
  | truth b =>
    cases b with
    | true =>
      have hword : ofWord? "true".toList.reverse.reverse = some (.truth true) := rfl
      exact read_word_end hword seen (hrest rfl)
    | false =>
      have hword : ofWord? "false".toList.reverse.reverse = some (.truth false) := rfl
      exact read_word_end hword seen (hrest rfl)
  | number h => exact read_number h seen (hrest rfl)
  | @string s cs h =>
    rw [List.append_assoc]
    exact (spells_of_stringSpelling h).read_between seen rest
  | _ => rfl

theorem read_gap {gap : List Char} (h : IsGap gap) (seen : List Lexeme) (rest : List Char) :
    read .between seen ((gap ++ rest).map some) = read .between seen (rest.map some) := by
  induction gap with
  | nil => rfl
  | cons c gap ih =>
    have hc : c = ' ' ∨ c = '\t' ∨ c = '\n' ∨ c = '\r' := by simpa using h c List.mem_cons_self
    have hstep : step .between (some c) = some ([], .between) := by
      rcases hc with rfl | rfl | rfl | rfl <;> rfl
    rw [List.cons_append, read_step hstep]
    exact ih fun d hd => h d (List.mem_cons_of_mem _ hd)

theorem Breaks.gap {gap rest : List Char} (h : IsGap gap) (hrest : Breaks rest) : Breaks (gap ++ rest) := by
  rcases gap with _ | ⟨c, gap⟩
  · exact hrest
  · have hc : c = ' ' ∨ c = '\t' ∨ c = '\n' ∨ c = '\r' := by simpa using h c List.mem_cons_self
    refine breaks_cons ?_ _
    rcases hc with rfl | rfl | rfl | rfl <;> decide

/-- What follows a number or a word, if it is neither. -/
theorem breaks_of_spaced {ls : List Lexeme} {rest : List Char} (h : Spaced ls rest)
    (hhead : ∀ l ∈ ls.head?, l.isOpenEnded = false) : Breaks rest := by
  cases h with
  | nil hgap =>
    rw [← List.append_nil rest]
    exact breaks_nil.gap hgap
  | @cons gap cs rest l ls hgap hl h =>
    have hl' := hhead l rfl
    refine Breaks.gap hgap ?_
    cases hl with
    | null => exact absurd hl' (by decide)
    | truth b => exact absurd hl' (by simp [isOpenEnded])
    | number h => exact absurd hl' (by simp [isOpenEnded])
    | string h => exact breaks_cons (by decide) _
    | _ => exact breaks_cons (by decide) _

/-- No two numbers or words stand side by side. -/
def Apart (ls : List Lexeme) : Prop := ls.IsChain fun l l' => l.isOpenEnded = true → l'.isOpenEnded = false

/-- **Lexemes are read as they are written**, whichever way that is. -/
theorem read_spaced {ls : List Lexeme} {cs : List Char} (h : Spaced ls cs) (ha : Apart ls)
    (seen : List Lexeme) : read .between seen (cs.map some) = some (seen.reverse ++ ls) := by
  induction h generalizing seen with
  | @nil gap hgap =>
    rw [← List.append_nil gap, read_gap hgap]
    simp [read, finish]
  | @cons gap cs rest l ls hgap hl h ih =>
    have hbreaks : l.isOpenEnded = true → Breaks rest := by
      intro hopen
      refine breaks_of_spaced h fun l' hl' => ?_
      exact (List.isChain_cons.1 ha).1 l' hl' hopen
    rw [read_gap hgap, read_writes hl seen hbreaks, ih (List.isChain_cons.1 ha).2]
    simp

/-! ## Lexemes of values -/

/-- They stand apart, also after a number or a word. -/
def Closed (ls : List Lexeme) : Prop := Apart ls ∧ ∀ l ∈ ls.head?, l.isOpenEnded = false

variable {ls : List Lexeme}

theorem apart_cons {l : Lexeme} (h : Closed ls) : Apart (l :: ls) :=
  List.isChain_cons.2 ⟨fun l' hl' _ => h.2 l' hl', h.1⟩

theorem closed_cons {l : Lexeme} (hl : l.isOpenEnded = false) (h : Apart ls) : Closed (l :: ls) := by
  refine ⟨List.isChain_cons.2 ⟨fun _ _ hopen => absurd (hl.symm.trans hopen) (by simp), h⟩, fun l' hl' => ?_⟩
  obtain rfl := Option.some.inj hl'
  exact hl

mutual

theorem apart_value (v : Value) {ls : List Lexeme} (h : Closed ls) : Apart (v.lexemes ++ ls) := by
  match v with
  | .null => exact apart_cons h
  | .truth _ => exact apart_cons h
  | .number _ => exact apart_cons h
  | .string _ => exact apart_cons h
  | .array [] => exact apart_cons (closed_cons rfl h.1)
  | .array (v :: vs) =>
    rw [Value.lexemes, List.append_assoc]
    exact (closed_cons rfl (apart_value v (closed_items vs h.1))).1
  | .object [] => exact apart_cons (closed_cons rfl h.1)
  | .object ((n, v) :: ms) =>
    have hvalue := closed_cons (l := .colon) rfl (apart_value v (closed_members ms h.1))
    have hname := closed_cons (l := .openObject) rfl (apart_cons (l := .string n) hvalue)
    simpa [Value.lexemes] using hname.1

theorem closed_items (vs : List Value) {ls : List Lexeme} (h : Apart ls) :
    Closed (Value.itemLexemes vs ++ ls) := by
  match vs with
  | [] => exact closed_cons rfl h
  | v :: vs =>
    rw [Value.itemLexemes, List.append_assoc]
    exact closed_cons rfl (apart_value v (closed_items vs h))

theorem closed_members (ms : List (Option String × Value)) {ls : List Lexeme} (h : Apart ls) :
    Closed (Value.memberLexemes ms ++ ls) := by
  match ms with
  | [] => exact closed_cons rfl h
  | (n, v) :: ms =>
    have hvalue := closed_cons (l := .colon) rfl (apart_value v (closed_members ms h))
    simpa [Value.memberLexemes] using closed_cons (l := .comma) rfl (apart_cons (l := .string n) hvalue)

end

theorem ofSymbols?_of_isText {v : Value} {s : String} (h : v.IsText s) :
    ofSymbols? (Text.symbols s) = some v.lexemes := by
  have hapart : Apart (v.lexemes ++ []) := apart_value v ⟨.nil, fun _ hl => absurd hl (by simp)⟩
  rw [List.append_nil] at hapart
  exact read_spaced h hapart []

end Lexeme

end Footage.Json
