import Mathlib.Data.List.TakeWhile
import Footage.Journal
import Footage.Proofs.Json.Fields

/-!
# What is read from lines of events

1. The lines of some bytes are what stands between their line feeds, without a carriage return before a line
   feed; what stands after the last one is a line if it is not empty (`lines_eq`).
2. A parser says which texts are events; nothing else of it matters. A line offends if it is no text, or is
   neither blank nor an event. Up to the first line that offends both modes find the same events. There strict
   reading ends (`readLines_offending`), and lenient reading goes on unless the line is no text.
3. After a line feed a new line begins, so bytes that end with one can be read apart from what follows
   (`lines_append`).
-/

namespace Footage

namespace Text

theorem trim_eq_nil_iff (cs : List Char) : trim cs = [] ↔ ∀ c ∈ cs, isBlank c := by
  unfold trim
  rw [List.reverse_eq_nil_iff, List.dropWhile_eq_nil_iff]
  constructor
  · intro h c hc
    rw [← List.takeWhile_append_dropWhile (p := isBlank) (l := cs)] at hc
    rcases List.mem_append.1 hc with hc | hc
    · exact List.mem_takeWhile_imp hc
    · exact h c (List.mem_reverse.2 hc)
  · intro h c hc
    exact h c ((List.dropWhile_suffix _).subset (List.mem_reverse.1 hc))

end Text

namespace Journal

/-! ## Lines -/

/-- A line without a carriage return at its end. -/
def withoutReturn (line : List UInt8) : List UInt8 :=
  if line.getLast? = some 13 then line.dropLast else line

/-- The lines that parts make up which were separated by line feeds. -/
def linesOf (parts : List (List UInt8)) : List (List UInt8) :=
  parts.dropLast.map withoutReturn ++ parts.getLast?.toList.filter (· ≠ [])

theorem closeLine_eq (reversed : List UInt8) : closeLine reversed = withoutReturn reversed.reverse := by
  unfold withoutReturn
  rw [List.getLast?_reverse]
  rcases reversed with _ | ⟨b, rest⟩
  · rfl
  · by_cases hb : b = 13
    · subst hb
      simp [closeLine]
    · simp [closeLine, hb]

theorem linesOf_cons {parts : List (List UInt8)} (h : parts ≠ []) (line : List UInt8) :
    linesOf (line :: parts) = withoutReturn line :: linesOf parts := by
  obtain ⟨part, parts, rfl⟩ := List.exists_cons_of_ne_nil h
  rfl

/-- The part of a line read so far belongs to the first of the parts. -/
theorem splitLines_eq (seen bytes : List UInt8) :
    splitLines seen bytes = linesOf ((bytes.splitOn 10).modifyHead (seen.reverse ++ ·)) := by
  fun_induction splitLines seen bytes with
  | case1 seen h =>
    rw [List.isEmpty_iff.1 h]
    rfl
  | case2 seen h =>
    have hne : seen.reverse ≠ [] := fun hnil => h (by simpa using hnil)
    simp [linesOf, hne]
  | case3 seen rest ih =>
    rw [ih, List.splitOn_cons_eq_if_modifyHead, if_pos (by decide), List.modifyHead_cons,
      linesOf_cons (List.splitOn_ne_nil 10 rest), closeLine_eq, List.append_nil]
    congr 1
    rcases rest.splitOn 10 with _ | ⟨part, parts⟩ <;> rfl
  | case4 seen b rest hb ih =>
    have hb : ¬ (b == 10) = true := fun h => hb (beq_iff_eq.1 h)
    rw [ih, List.splitOn_cons_eq_if_modifyHead, if_neg hb, List.modifyHead_modifyHead]
    congr 1
    rcases rest.splitOn 10 with _ | ⟨part, parts⟩
    · rfl
    · simp

theorem lines_eq (bytes : List UInt8) : lines bytes = linesOf (bytes.splitOn 10) := by
  unfold lines
  rw [splitLines_eq]
  rcases bytes.splitOn 10 with _ | ⟨part, parts⟩ <;> rfl

theorem splitLines_append (seen bytes more : List UInt8) :
    splitLines seen (bytes ++ 10 :: more) = splitLines seen (bytes ++ [10]) ++ lines more := by
  induction bytes generalizing seen with
  | nil => rfl
  | cons b bytes ih =>
    by_cases hb : b = 10
    · subst hb
      simp only [List.cons_append, splitLines, ih]
    · simp only [List.cons_append, splitLines, ih]

/-- After a line feed a new line begins. -/
theorem lines_append {bytes : List UInt8} (h : bytes = [] ∨ bytes.getLast? = some 10) (more : List UInt8) :
    lines (bytes ++ more) = lines bytes ++ lines more := by
  rcases h with rfl | h
  · rfl
  · obtain ⟨init, rfl⟩ := List.getLast?_eq_some_iff.1 h
    rw [List.append_assoc]
    exact splitLines_append [] init more

/-! ## Texts -/

/-- The text is empty without the blanks at its ends. -/
def Blank (s : String) : Prop := Text.trim s.toList = []

instance : DecidablePred Blank := fun s => inferInstanceAs (Decidable (Text.trim s.toList = []))

theorem isBlank_iff (s : String) : isBlank s = true ↔ Blank s := by
  unfold isBlank Blank
  rw [Text.trim_eq_nil_iff, List.all_eq_true]

/-- The text is neither blank nor an event. -/
def Junk (parse? : String → Option Event) (s : String) : Prop := ¬ Blank s ∧ parse? s = none

instance (parse? : String → Option Event) : DecidablePred (Junk parse?) := fun s =>
  inferInstanceAs (Decidable (¬ Blank s ∧ parse? s = none))

/-- The events among the texts, and the number of those that are junk. -/
def found (parse? : String → Option Event) (texts : List String) : Batch where
  events := (texts.filter (¬ Blank ·)).filterMap parse?
  skipped := texts.countP (Junk parse? ·)

variable {parse? : String → Option Event}

theorem found_eq (texts : List String) :
    let worded := texts.filter fun s => Text.trim s.toList ≠ []
    found parse? texts = ⟨worded.filterMap parse?, worded.countP fun s => parse? s = none⟩ := by
  intro worded
  have hskipped : texts.countP (Junk parse? ·) = worded.countP fun s => parse? s = none := by
    rw [List.countP_filter]
    refine List.countP_congr fun s _ => ?_
    simp [Junk, Blank, and_comm]
  rw [← hskipped]
  rfl

theorem found_append (texts texts' : List String) : found parse? (texts ++ texts') =
    ⟨(found parse? texts).events ++ (found parse? texts').events,
      (found parse? texts).skipped + (found parse? texts').skipped⟩ := by
  simp [found]

theorem found_cons_of_blank {s : String} (h : Blank s) (texts : List String) :
    found parse? (s :: texts) = found parse? texts := by
  have hjunk : ¬ Junk parse? s := fun hj => hj.1 h
  simp [found, h, hjunk]

theorem found_cons_of_event {s : String} {e : Event} (h : ¬ Blank s) (he : parse? s = some e)
    (texts : List String) :
    found parse? (s :: texts) = { found parse? texts with events := e :: (found parse? texts).events } := by
  have hjunk : ¬ Junk parse? s := fun hj => by simp [hj.2] at he
  simp [found, h, hjunk, he]

theorem found_cons_of_junk {s : String} (h : Junk parse? s) (texts : List String) :
    found parse? (s :: texts) = { found parse? texts with skipped := (found parse? texts).skipped + 1 } := by
  simp [found, h, h.1, h.2]

/-! ## Reading lines -/

/-- The line is no text, or one that is junk. -/
def Offends (parse? : String → Option Event) (line : List UInt8) : Prop :=
  ∀ s ∈ Text.ofBytes? line, Junk parse? s

/-- What strict reading says of a line that offends. -/
def faultOf (number : Nat) (line : List UInt8) : Fault :=
  if (Text.ofBytes? line).isSome then .notEvent number else .notText

section

variable {lenient : Bool} {n : Nat} {batch : Batch} {line : List UInt8} {rest ls : List (List UInt8)}
  {texts : List String} {s : String}

theorem readLines_cons (h : Text.ofBytes? line = some s) (hj : ¬ Junk parse? s) :
    readLines parse? lenient n batch (line :: rest) =
      readLines parse? lenient (n + 1)
        { batch with events := (found parse? [s]).events.reverse ++ batch.events } rest := by
  rw [readLines, h]
  by_cases hb : Blank s
  · simp only [(isBlank_iff s).2 hb, if_true, found_cons_of_blank hb]
    rfl
  · have hparse : parse? s ≠ none := fun hnone => hj ⟨hb, hnone⟩
    obtain ⟨e, he⟩ := Option.ne_none_iff_exists'.1 hparse
    simp only [show isBlank s = false from Bool.eq_false_iff.2 fun h => hb ((isBlank_iff s).1 h), he,
      Bool.false_eq_true, if_false, found_cons_of_event hb he]
    rfl

theorem readLines_cons_of_junk (h : Text.ofBytes? line = some s) (hj : Junk parse? s) :
    readLines parse? lenient n batch (line :: rest) =
      if lenient then readLines parse? lenient (n + 1) { batch with skipped := batch.skipped + 1 } rest
      else .error (.notEvent n) := by
  rw [readLines, h]
  simp only [show isBlank s = false from Bool.eq_false_iff.2 fun h => hj.1 ((isBlank_iff s).1 h), hj.2,
    Bool.false_eq_true, if_false]

/-- Lenient reading of texts. -/
theorem readLines_texts (h : ls.mapM Text.ofBytes? = some texts) (n : Nat) (batch : Batch) :
    readLines parse? true n batch ls =
      .ok ⟨batch.events.reverse ++ (found parse? texts).events,
        batch.skipped + (found parse? texts).skipped⟩ := by
  rw [mapM_eq_some_iff] at h
  induction h generalizing n batch with
  | nil => simp [readLines, found]
  | @cons line s ls texts hs _ ih =>
    by_cases hj : Junk parse? s
    · rw [readLines_cons_of_junk hs hj, if_pos rfl, ih, found_cons_of_junk hj]
      congr 2
      show batch.skipped + 1 + (found parse? texts).skipped = batch.skipped + ((found parse? texts).skipped + 1)
      omega
    · have hskipped : (found parse? [s]).skipped = 0 := by simp [found, hj]
      rw [readLines_cons hs hj, ih, ← List.singleton_append (l := texts), found_append, hskipped]
      simp

/-- Lenient reading ends at a line that is no text. -/
theorem readLines_notText (hmem : line ∈ ls) (h : Text.ofBytes? line = none) (n : Nat) (batch : Batch) :
    readLines parse? true n batch ls = .error .notText := by
  induction ls generalizing n batch with
  | nil => exact absurd hmem List.not_mem_nil
  | cons line' ls ih =>
    cases hs : Text.ofBytes? line' with
    | none => rw [readLines, hs]
    | some s =>
      have hmem : line ∈ ls := by
        rcases List.mem_cons.1 hmem with rfl | hmem
        · exact absurd (h.symm.trans hs) (by simp)
        · exact hmem
      by_cases hj : Junk parse? s
      · rw [readLines_cons_of_junk hs hj, if_pos rfl, ih hmem]
      · rw [readLines_cons hs hj, ih hmem]

theorem not_offends_iff : ¬ Offends parse? line ↔ ∃ s, Text.ofBytes? line = some s ∧ ¬ Junk parse? s := by
  unfold Offends
  simp only [not_forall, Option.mem_def, exists_prop]

/-- What is before a line that offends does not matter to strict reading, and nothing after it is read. -/
theorem readLines_offending {before after : List (List UInt8)} (hbefore : ∀ l ∈ before, ¬ Offends parse? l)
    (hline : Offends parse? line) (n : Nat) (batch : Batch) :
    readLines parse? false n batch (before ++ line :: after) = .error (faultOf (n + before.length) line) := by
  induction before generalizing n batch with
  | nil =>
    unfold faultOf
    cases hs : Text.ofBytes? line with
    | none =>
      rw [List.nil_append, readLines, hs]
      rfl
    | some s =>
      rw [List.nil_append, readLines_cons_of_junk hs (hline s hs)]
      rfl
  | cons l before ih =>
    obtain ⟨s, hs, hj⟩ := not_offends_iff.1 (hbefore l List.mem_cons_self)
    rw [List.cons_append, readLines_cons hs hj, ih fun l hl => hbefore l (List.mem_cons_of_mem _ hl),
      List.length_cons, show n + 1 + before.length = n + (before.length + 1) by omega]

/-- Where no text is junk the two modes do the same. -/
theorem readLines_strict (h : ls.mapM Text.ofBytes? = some texts) (hnone : ∀ s ∈ texts, ¬ Junk parse? s)
    (n : Nat) (batch : Batch) : readLines parse? false n batch ls = readLines parse? true n batch ls := by
  rw [mapM_eq_some_iff] at h
  induction h generalizing n batch with
  | nil => rfl
  | @cons line s ls texts hs _ ih =>
    have hj : ¬ Junk parse? s := hnone s List.mem_cons_self
    rw [readLines_cons hs hj, readLines_cons hs hj]
    exact ih (fun s hs => hnone s (List.mem_cons_of_mem _ hs)) _ _

end

/-! ## Reading bytes -/

theorem exists_first {α : Type} {P : α → Prop} [DecidablePred P] {as : List α} (h : ∃ a ∈ as, P a) :
    ∃ before a after, as = before ++ a :: after ∧ (∀ b ∈ before, ¬ P b) ∧ P a := by
  obtain ⟨a, ha, hP⟩ := h
  obtain ⟨a', ha'⟩ := Option.isSome_iff_exists.1 (List.find?_isSome (p := (P ·)).2 ⟨a, ha, decide_eq_true hP⟩)
  obtain ⟨hP', before, after, rfl, hbefore⟩ := List.find?_eq_some_iff_append.1 ha'
  exact ⟨before, a', after, rfl, fun b hb => by simpa using hbefore b hb, of_decide_eq_true hP'⟩

instance : DecidablePred (Offends parse?) := fun line =>
  inferInstanceAs (Decidable (∀ s ∈ Text.ofBytes? line, Junk parse? s))

/-- Lenient reading succeeds where the lines are texts. -/
theorem readBy_eq_ok_iff {bytes : List UInt8} {batch : Batch} : readBy parse? true bytes = .ok batch ↔
    ∃ texts, (lines bytes).mapM Text.ofBytes? = some texts ∧ batch = found parse? texts := by
  have hok : ∀ texts, (lines bytes).mapM Text.ofBytes? = some texts →
      readBy parse? true bytes = .ok (found parse? texts) := by
    intro texts htexts
    unfold readBy
    rw [readLines_texts htexts]
    simp
  constructor
  · intro h
    by_cases hnone : ∃ line ∈ lines bytes, Text.ofBytes? line = none
    · obtain ⟨line, hmem, hline⟩ := hnone
      unfold readBy at h
      rw [readLines_notText hmem hline] at h
      exact absurd h (by simp)
    · obtain ⟨texts, htexts⟩ := exists_mapM fun line hmem hline => hnone ⟨line, hmem, hline⟩
      exact ⟨texts, htexts, Except.ok.inj (h.symm.trans (hok texts htexts))⟩
  · rintro ⟨texts, htexts, rfl⟩
    exact hok texts htexts

theorem found_skipped_eq_zero_iff (texts : List String) :
    (found parse? texts).skipped = 0 ↔ ∀ s ∈ texts, ¬ Junk parse? s := by
  simp [found]

/-- Strict reading succeeds where no line offends, and finds what lenient reading does. -/
theorem strict_of_texts {bytes : List UInt8} {texts : List String}
    (h : (lines bytes).mapM Text.ofBytes? = some texts) (hnone : ∀ s ∈ texts, ¬ Junk parse? s) :
    readBy parse? false bytes = .ok (found parse? texts) := by
  rw [← readBy_eq_ok_iff.2 ⟨texts, h, rfl⟩]
  exact readLines_strict h hnone 1 {}

/-- Strict reading ends at the first line that offends. -/
theorem strict_of_offends {bytes : List UInt8} (h : ∃ line ∈ lines bytes, Offends parse? line) :
    ∃ before line after, lines bytes = before ++ line :: after ∧ (∀ l ∈ before, ¬ Offends parse? l) ∧
      Offends parse? line ∧ readBy parse? false bytes = .error (faultOf (before.length + 1) line) := by
  obtain ⟨before, line, after, hlines, hbefore, hline⟩ := exists_first h
  refine ⟨before, line, after, hlines, hbefore, hline, ?_⟩
  unfold readBy
  rw [hlines, readLines_offending hbefore hline, Nat.add_comm]

/-- Where all lines are texts strict reading ends at the first that is junk. -/
theorem strict_of_junk {bytes : List UInt8} {texts : List String}
    (h : (lines bytes).mapM Text.ofBytes? = some texts) (hjunk : ∃ s ∈ texts, Junk parse? s) :
    ∃ before line s after, lines bytes = before ++ line :: after ∧ (∀ l ∈ before, ¬ Offends parse? l) ∧
      Text.ofBytes? line = some s ∧ Junk parse? s ∧
      readBy parse? false bytes = .error (.notEvent (before.length + 1)) := by
  obtain ⟨s, hs, hj⟩ := hjunk
  obtain ⟨line, hmem, hline⟩ := (mem_mapM_iff h s).1 hs
  have hoffends : Offends parse? line := fun s' hs' => Option.some.inj (hline.symm.trans hs') ▸ hj
  obtain ⟨before, first, after, hparts, hbefore, hfirst, hresult⟩ := strict_of_offends ⟨line, hmem, hoffends⟩
  have hmem : first ∈ lines bytes := by
    rw [hparts]
    exact List.mem_append_right before List.mem_cons_self
  cases hs : Text.ofBytes? first with
  | none =>
    have hread : readBy parse? true bytes = .ok (found parse? texts) := readBy_eq_ok_iff.2 ⟨texts, h, rfl⟩
    exact absurd (hread.symm.trans (readLines_notText hmem hs 1 {})) (by simp)
  | some s =>
    rw [faultOf, hs, Option.isSome_some, if_pos rfl] at hresult
    exact ⟨before, first, s, after, hparts, hbefore, hs, hfirst s hs, hresult⟩

/-- Bytes that end with a line feed are read apart from what follows. -/
theorem readBy_append {bytes more : List UInt8} {batch batch' : Batch}
    (hend : bytes = [] ∨ bytes.getLast? = some 10) (hread : readBy parse? true bytes = .ok batch)
    (hmore : readBy parse? true more = .ok batch') :
    readBy parse? true (bytes ++ more) =
      .ok ⟨batch.events ++ batch'.events, batch.skipped + batch'.skipped⟩ := by
  obtain ⟨texts, htexts, rfl⟩ := readBy_eq_ok_iff.1 hread
  obtain ⟨texts', htexts', rfl⟩ := readBy_eq_ok_iff.1 hmore
  rw [← found_append]
  refine readBy_eq_ok_iff.2 ⟨texts ++ texts', ?_, rfl⟩
  rw [lines_append hend, List.mapM_append, htexts, htexts']
  rfl

/-- **Strict and lenient reading find the same events**, whatever parser finds them. Strict reading ends at the
first line that is no text, or neither blank nor an event; lenient reading counts the latter. -/
theorem read_exact (parse? : String → Option Event) (bytes : List UInt8) :
    let parts := bytes.splitOn 10
    let ls := parts.dropLast.map withoutReturn ++ parts.getLast?.toList.filter (· ≠ [])
    (∀ texts, ls.mapM Text.ofBytes? = some texts →
      let worded := texts.filter fun s => Text.trim s.toList ≠ []
      let events := worded.filterMap parse?
      let skipped := worded.countP fun s => parse? s = none
      readBy parse? true bytes = .ok ⟨events, skipped⟩ ∧
      ((∃ batch, readBy parse? false bytes = .ok batch) ↔ skipped = 0) ∧
      (skipped = 0 → readBy parse? false bytes = .ok ⟨events, 0⟩) ∧
      (skipped ≠ 0 → ∃ before line s after, ls = before ++ line :: after ∧ (∀ l ∈ before, ¬ Offends parse? l) ∧
        Text.ofBytes? line = some s ∧ Junk parse? s ∧
        readBy parse? false bytes = .error (.notEvent (before.length + 1)))) ∧
    ((∃ line ∈ ls, Text.ofBytes? line = none) → readBy parse? true bytes = .error .notText ∧
      ∃ before line after, ls = before ++ line :: after ∧ (∀ l ∈ before, ¬ Offends parse? l) ∧
        Offends parse? line ∧ readBy parse? false bytes = .error
          (if (Text.ofBytes? line).isSome then .notEvent (before.length + 1) else .notText)) ∧
    ∀ more batch batch', bytes = [] ∨ bytes.getLast? = some 10 → readBy parse? true bytes = .ok batch →
      readBy parse? true more = .ok batch' →
      readBy parse? true (bytes ++ more) =
        .ok ⟨batch.events ++ batch'.events, batch.skipped + batch'.skipped⟩ := by
  intro parts ls
  have hls : lines bytes = ls := lines_eq bytes
  rw [← hls]
  refine ⟨fun texts htexts => ?_, ?_, fun more batch batch' => readBy_append⟩
  · intro worded events skipped
    have hfound : found parse? texts = ⟨events, skipped⟩ := found_eq texts
    have hread : readBy parse? true bytes = .ok ⟨events, skipped⟩ :=
      hfound ▸ readBy_eq_ok_iff.2 ⟨texts, htexts, rfl⟩
    have hzero : skipped = 0 ↔ ∀ s ∈ texts, ¬ Junk parse? s := by
      rw [← found_skipped_eq_zero_iff, hfound]
    have hstrict : skipped = 0 → readBy parse? false bytes = .ok ⟨events, 0⟩ := by
      intro h
      rw [strict_of_texts htexts (hzero.1 h), hfound, h]
    have hfault (h : skipped ≠ 0) := strict_of_junk htexts (by simpa using mt hzero.2 h)
    refine ⟨hread, ⟨fun ⟨batch, hok⟩ => ?_, fun h => ⟨_, hstrict h⟩⟩, hstrict, hfault⟩
    by_contra hne
    obtain ⟨before, line, s, after, -, -, -, -, hresult⟩ := hfault hne
    exact absurd (hok.symm.trans hresult) (by simp)
  · rintro ⟨line, hmem, hline⟩
    have hoffends : Offends parse? line := fun s hs => absurd (hline.symm.trans hs) (by simp)
    exact ⟨readLines_notText hmem hline 1 {}, strict_of_offends ⟨line, hmem, hoffends⟩⟩

/-- An event before a carriage return, a line with one blank, a line that is no event, and an event at the end.
The third line ends strict reading, also where more follows that is no text. -/
theorem read_exact_mixed :
    let input := Text.bytes ("[\"increment\",\"d\",\"SECONDS\",1000,400,\"CLOUD\"]\r\n \nx\n" ++
      "[\"catchup\",\"d\",\"SECONDS\",1000,100,\"DEVICE\"]")
    let es : List Event :=
      [.increment ⟨"d", .seconds, 1000, 400, .cloud⟩, .catchup ⟨"d", .seconds, 1000, 100, .device⟩]
    read true input = .ok ⟨es, 1⟩ ∧ read false input = .error (.notEvent 3) ∧
    read true (input ++ [10, 255]) = .error .notText ∧ read true ([10] ++ input) = .ok ⟨es, 1⟩ := by
  intro input es
  obtain ⟨hall, -, -⟩ := read_exact Event.parse? input
  obtain ⟨-, hnotText, -⟩ := read_exact Event.parse? (input ++ [10, 255])
  obtain ⟨-, -, happend⟩ := read_exact Event.parse? [10]
  let texts := ["[\"increment\",\"d\",\"SECONDS\",1000,400,\"CLOUD\"]", " ", "x",
    "[\"catchup\",\"d\",\"SECONDS\",1000,100,\"DEVICE\"]"]
  obtain ⟨hread, -, -, hstrict⟩ := hall texts (by decide +kernel)
  have hbatch : read true input = .ok ⟨es, 1⟩ := hread.trans (congrArg Except.ok (by decide +kernel))
  obtain ⟨before, line, s, after, hlines, hbefore, hs, hj, hfault⟩ := hstrict (by decide +kernel)
  have hoffends : Offends Event.parse? line := fun s' hs' => Option.some.inj (hs.symm.trans hs') ▸ hj
  have hfirst : (lines input).findIdx (Offends Event.parse? ·) = before.length := by
    have hnone : before.findIdx (Offends Event.parse? ·) = before.length :=
      List.findIdx_eq_length_of_false fun l hl => decide_eq_false (hbefore l hl)
    rw [show lines input = _ from (lines_eq input).trans hlines, List.findIdx_append, hnone]
    simp [List.findIdx_cons, hoffends]
  rw [← hfirst, show (lines input).findIdx (Offends Event.parse? ·) = 2 by decide +kernel] at hfault
  refine ⟨hbatch, hfault, (hnotText (by decide +kernel)).1, ?_⟩
  exact happend input ⟨[], 0⟩ ⟨es, 1⟩ (.inr rfl) rfl hbatch

end Journal

end Footage
