import Footage.Proofs.Json.Lexing

/-!
# Reading a written value

The machine that reads values goes through the lexemes of a value and ends with that value on top of
what was open before (`run_value`), unless it would have to open more than it may. With the lexemes
of a written value this makes reading the inverse of writing.
-/

namespace Footage.Json.Value

mutual

/-- The most arrays and objects inside one another. -/
def depth : Value → Nat
  | array vs => itemDepth vs + 1
  | object ms => memberDepth ms + 1
  | _ => 0

def itemDepth : List Value → Nat
  | [] => 0
  | v :: vs => max v.depth (itemDepth vs)

def memberDepth : List (Option String × Value) → Nat
  | [] => 0
  | (_, v) :: ms => max v.depth (memberDepth ms)

end

/-- Inside what is open, `n` more may be opened inside one another. -/
def Room (limit : Option Nat) (outer : List Frame) (n : Nat) : Prop := ∀ d ∈ limit, outer.length + n ≤ d

theorem room_none (outer : List Frame) (n : Nat) : Room none outer n := fun d h => absurd h (by simp)

theorem Room.mono {limit : Option Nat} {outer : List Frame} {m n : Nat} (h : Room limit outer n)
    (hmn : m ≤ n) : Room limit outer m := fun d hd => by
  have := h d hd
  omega

theorem Room.inner {limit : Option Nat} {outer : List Frame} {f : Frame} {n : Nat}
    (h : Room limit outer (n + 1)) : Room limit (f :: outer) n := fun d hd => by
  have := h d hd
  rw [List.length_cons]
  omega

theorem Room.all_lt {limit : Option Nat} {outer : List Frame} {n : Nat}
    (h : Room limit outer (n + 1)) : limit.all (outer.length < ·) = true := by
  rw [Option.all_eq_true]
  intro d hd
  have := h d hd
  exact decide_eq_true (by omega)

theorem run_step {limit : Option Nat} {s s' : State} {l : Lexeme} {ls : List Lexeme}
    (h : step limit s l = some s') : run limit s (l :: ls) = run limit s' ls := by
  rw [run, h]

/-- The first lexeme of a value does not end an array. -/
theorem run_first (limit : Option Nat) (v : Value) (outer : List Frame) (rest : List Lexeme) :
    run limit (.first outer) (v.lexemes ++ rest) =
      run limit (.value (.array [] :: outer)) (v.lexemes ++ rest) := by
  rcases v with _ | _ | _ | _ | ⟨_ | ⟨_, _⟩⟩ | ⟨_ | ⟨⟨_, _⟩, _⟩⟩ <;> rfl

variable {limit : Option Nat}

mutual

theorem run_value (v : Value) (outer : List Frame) (h : Room limit outer v.depth)
    (rest : List Lexeme) :
    run limit (.value outer) (v.lexemes ++ rest) = run limit (.after v outer) rest := by
  match v, h with
  | .null, _ => rfl
  | .truth _, _ => rfl
  | .number _, _ => rfl
  | .string _, _ => rfl
  | .array vs, h =>
    have hopen : step limit (.value outer) .openArray = some (.first outer) := by
      rw [step, begin, if_pos h.all_lt]
    match vs, h with
    | [], _ => exact run_step hopen
    | v :: vs, h =>
      have hv : Room limit (.array [] :: outer) v.depth := h.inner.mono (Nat.le_max_left _ _)
      have hvs : Room limit outer (itemDepth vs + 1) := h.mono (Nat.succ_le_succ (Nat.le_max_right _ _))
      rw [lexemes, List.cons_append, List.cons_append, List.append_assoc, run_step hopen, run_first,
        run_value v _ hv, run_items vs v [] outer hvs]
      rfl
  | .object ms, h =>
    have hopen : step limit (.value outer) .openObject = some (.firstName outer) := by
      rw [step, begin, if_pos h.all_lt]
    match ms, h with
    | [], _ => exact run_step hopen
    | (n, v) :: ms, h =>
      have hv : Room limit (.object [] n :: outer) v.depth := h.inner.mono (Nat.le_max_left _ _)
      have hms : Room limit outer (memberDepth ms + 1) :=
        h.mono (Nat.succ_le_succ (Nat.le_max_right _ _))
      have hname : step limit (.firstName outer) (.string n) = some (.colon [] n outer) := rfl
      have hcolon : step limit (.colon [] n outer) .colon = some (.value (.object [] n :: outer)) := rfl
      rw [lexemes, show (Lexeme.openObject :: .string n :: .colon :: v.lexemes ++ memberLexemes ms) ++
          rest = .openObject :: .string n :: .colon :: (v.lexemes ++ (memberLexemes ms ++ rest)) by simp,
        run_step hopen, run_step hname, run_step hcolon, run_value v _ hv,
        run_members ms n v [] outer hms]
      rfl

/-- The rest of an array of which `v` and, in reverse order, `before` have been read. -/
theorem run_items (vs : List Value) (v : Value) (before : List Value) (outer : List Frame)
    (h : Room limit outer (itemDepth vs + 1)) (rest : List Lexeme) :
    run limit (.after v (.array before :: outer)) (itemLexemes vs ++ rest) =
      run limit (.after (.array (before.reverse ++ v :: vs)) outer) rest := by
  match vs, h with
  | [], _ =>
    have hclose : step limit (.after v (.array before :: outer)) .closeArray =
        some (.after (.array (v :: before).reverse) outer) := rfl
    rw [itemLexemes, List.singleton_append, run_step hclose, List.reverse_cons]
  | w :: vs, h =>
    have hcomma : step limit (.after v (.array before :: outer)) .comma =
        some (.value (.array (v :: before) :: outer)) := rfl
    have hw : Room limit (.array (v :: before) :: outer) w.depth := h.inner.mono (Nat.le_max_left _ _)
    have hvs : Room limit outer (itemDepth vs + 1) := h.mono (Nat.succ_le_succ (Nat.le_max_right _ _))
    rw [itemLexemes, List.cons_append, List.cons_append, List.append_assoc, run_step hcomma,
      run_value w _ hw, run_items vs w (v :: before) outer hvs, List.reverse_cons, List.append_assoc,
      List.singleton_append]

/-- The rest of an object whose member `v` and, in reverse order, `before` have been read. -/
theorem run_members (ms : List (Option String × Value)) (n : Option String) (v : Value)
    (before : List (Option String × Value)) (outer : List Frame)
    (h : Room limit outer (memberDepth ms + 1)) (rest : List Lexeme) :
    run limit (.after v (.object before n :: outer)) (memberLexemes ms ++ rest) =
      run limit (.after (.object (before.reverse ++ (n, v) :: ms)) outer) rest := by
  match ms, h with
  | [], _ =>
    have hclose : step limit (.after v (.object before n :: outer)) .closeObject =
        some (.after (.object ((n, v) :: before).reverse) outer) := rfl
    rw [memberLexemes, List.singleton_append, run_step hclose, List.reverse_cons]
  | (n', w) :: ms, h =>
    have hcomma : step limit (.after v (.object before n :: outer)) .comma =
        some (.name ((n, v) :: before) outer) := rfl
    have hname : step limit (.name ((n, v) :: before) outer) (.string n') =
        some (.colon ((n, v) :: before) n' outer) := rfl
    have hcolon : step limit (.colon ((n, v) :: before) n' outer) .colon =
        some (.value (.object ((n, v) :: before) n' :: outer)) := rfl
    have hw : Room limit (.object ((n, v) :: before) n' :: outer) w.depth :=
      h.inner.mono (Nat.le_max_left _ _)
    have hms : Room limit outer (memberDepth ms + 1) :=
      h.mono (Nat.succ_le_succ (Nat.le_max_right _ _))
    rw [memberLexemes, show (Lexeme.comma :: .string n' :: .colon :: w.lexemes ++ memberLexemes ms) ++
        rest = .comma :: .string n' :: .colon :: (w.lexemes ++ (memberLexemes ms ++ rest)) by simp,
      run_step hcomma, run_step hname, run_step hcolon, run_value w _ hw,
      run_members ms n' w ((n, v) :: before) outer hms, List.reverse_cons, List.append_assoc,
      List.singleton_append]

end

theorem ofLexemes?_lexemes {v : Value} (h : Room limit [] v.depth) :
    ofLexemes? limit v.lexemes = some v := by
  have hrun := run_value v [] h []
  rw [List.append_nil] at hrun
  unfold ofLexemes?
  rw [hrun]
  rfl

/-- A value is read from any text that writes it. -/
theorem ofSymbols?_of_isText {v : Value} {s : String} (h : v.IsText s) :
    ofSymbols? (Text.symbols s) = some v := by
  unfold ofSymbols?
  rw [Lexeme.ofSymbols?_of_isText h]
  exact ofLexemes?_lexemes (room_none _ _)

/-- A value with whole numbers is read as it is printed. -/
theorem ofSymbols?_text {v : Value} (h : v.Whole) : ofSymbols? (Text.symbols v.text) = some v :=
  ofSymbols?_of_isText (isText_text h)

/-! ## Sound texts -/

theorem ofSoundSymbols?_of_isText {v : Value} {s : String} (h : v.IsText s)
    (hsound : ∀ l ∈ v.lexemes, l.isSound = true) {d : Nat} (hd : v.depth ≤ d) :
    ofSoundSymbols? d (Text.symbols s) = some v := by
  have hroom : Room (some d) [] v.depth := by
    rintro _ ⟨⟩
    rwa [List.length_nil, Nat.zero_add]
  unfold ofSoundSymbols?
  rw [Lexeme.ofSymbols?_of_isText h]
  show (if v.lexemes.all (·.isSound) then _ else none) = _
  rw [if_pos (List.all_eq_true.2 hsound)]
  exact ofLexemes?_lexemes hroom

theorem begin_none {outer : List Frame} {l : Lexeme} {s : State} (h : begin limit outer l = some s) :
    begin none outer l = some s := by
  cases l with
  | openArray =>
    unfold begin at h
    exact (Option.ite_none_right_eq_some.1 h).2
  | openObject =>
    unfold begin at h
    exact (Option.ite_none_right_eq_some.1 h).2
  | _ => exact h

theorem step_none {s s' : State} {l : Lexeme} (h : step limit s l = some s') : step none s l = some s' := by
  fun_cases step limit s l
  case case1 => exact begin_none h
  case case3 outer hl =>
    have hbegin : begin limit (.array [] :: outer) l = some s' := by simpa [step, hl] using h
    simpa [step, hl] using begin_none hbegin
  all_goals simp_all [step]

/-- What is read with a limit is read without. -/
theorem run_none {s s' : State} {ls : List Lexeme} (h : run limit s ls = some s') :
    run none s ls = some s' := by
  induction ls generalizing s with
  | nil => exact h
  | cons l ls ih =>
    cases hstep : step limit s l with
    | none =>
      rw [run, hstep] at h
      exact absurd h (by simp)
    | some t =>
      rw [run_step hstep] at h
      rw [run_step (step_none hstep)]
      exact ih h

theorem ofSymbols?_of_sound {d : Nat} {symbols : List Text.Symbol} {v : Value}
    (h : ofSoundSymbols? d symbols = some v) : ofSymbols? symbols = some v := by
  obtain ⟨ls, hls, h⟩ := Option.bind_eq_some_iff.1 h
  obtain ⟨-, h⟩ := Option.ite_none_right_eq_some.1 h
  unfold ofSymbols?
  rw [hls]
  show ofLexemes? none ls = some v
  unfold ofLexemes? at h ⊢
  cases hrun : run (some d) (.value []) ls with
  | none =>
    rw [hrun] at h
    exact absurd h (by simp)
  | some s =>
    rw [hrun] at h
    rw [run_none hrun]
    exact h

end Footage.Json.Value
