import Footage.Config.Tree
import Footage.Text.Blank

/-!
# Settings documents

A document is a block of entries `name: value`, one a line. Entries that belong together are indented
alike; an entry without a value on its line has the deeper block after it as its value, or a list whose
items begin with a dash, or null. A value is a plain word or number, a quoted text, or a list or table
in brackets. A `#` after a blank starts a comment.
-/

namespace Footage.Config.Document

/-- A line that is not blank. -/
structure Line where
  indent : Nat
  content : List Char
  deriving DecidableEq, Repr

/-- A blank within a line. -/
def isGap (c : Char) : Bool := c = ' ' || c = '\t'

/-- Nothing follows, or only a comment after a blank. -/
def isTail : List Char → Bool
  | [] => true
  | c :: rest => isGap c && (rest.dropWhile isGap).head?.all (· = '#')

/-- The plain text up to a comment. -/
def plainPart (afterGap : Bool) : List Char → List Char
  | [] => []
  | c :: rest => if afterGap ∧ c = '#' then [] else c :: plainPart (isGap c) rest

/-- The text without blanks at its end. -/
def trimEnd (cs : List Char) : List Char := (cs.reverse.dropWhile isGap).reverse

/-- The line without a carriage return at its end. -/
def withoutReturn (cs : List Char) : List Char :=
  match cs.reverse with
  | '\r' :: rest => rest.reverse
  | _ => cs

/-- The lines that are not blank and not comments. -/
def lines (text : String) : List Line :=
  (text.splitOn "\n").filterMap fun s =>
    let cs := withoutReturn s.toList
    let content := cs.dropWhile (· = ' ')
    if (content.dropWhile isGap).head?.all (· = '#') then none
    else some ⟨cs.length - content.length, content⟩

/-! ## Scalars -/

/-- What a plain text stands for. -/
def scalar (cs : List Char) : Tree :=
  let s := String.ofList cs
  if s = "" ∨ s = "~" ∨ s = "null" then .null
  else if s = "true" then .truth true
  else if s = "false" then .truth false
  else match Decimal.read cs with
    | .ok n => .integer n
    | .error _ =>
      match Real.parse? cs with
      | some r => .real r
      | none => .text s

/-- The characters with which a plain text cannot begin. -/
def indicators : List Char := "[]\x7b\x7d,#&*!|>'\"%@`".toList

/-- The text may stand without quotes: it does not begin like anything else, and holds no entry. -/
def isPlain (cs : List Char) : Bool :=
  (match cs with
    | [] => true
    | c :: rest =>
      ¬ isGap c ∧ ¬ indicators.contains c ∧ ¬ ((c = '-' ∨ c = '?' ∨ c = ':') ∧ rest.head?.all isGap)) &&
  noEntry cs
where
  /-- No colon is followed by a blank or the end. -/
  noEntry : List Char → Bool
    | [] => true
    | c :: rest => ¬ (c = ':' ∧ rest.head?.all isGap) ∧ noEntry rest

/-- The character of an escape of one letter in a text in double quotes. -/
def unescape? : Char → Option Char
  | '"' => some '"'
  | '\\' => some '\\'
  | '/' => some '/'
  | ' ' => some ' '
  | '0' => some '\x00'
  | 'a' => some '\x07'
  | 'b' => some '\x08'
  | 'e' => some '\x1b'
  | 'f' => some '\x0c'
  | 'n' => some '\n'
  | 'r' => some '\r'
  | 't' => some '\t'
  | 'v' => some '\x0b'
  | _ => none

/-- A text in double quotes after the first, and what follows it. -/
def doubleQuoted : List Char → Option (List Char × List Char)
  | [] => none
  | '"' :: rest => some ([], rest)
  | '\\' :: c :: rest => do
    let d ← unescape? c
    let (cs, tail) ← doubleQuoted rest
    return (d :: cs, tail)
  | c :: rest => do
    let (cs, tail) ← doubleQuoted rest
    return (c :: cs, tail)

/-- A text in single quotes after the first, and what follows it; two quotes stand for one. -/
def singleQuoted : List Char → Option (List Char × List Char)
  | [] => none
  | '\'' :: '\'' :: rest => do
    let (cs, tail) ← singleQuoted rest
    return ('\'' :: cs, tail)
  | '\'' :: rest => some ([], rest)
  | c :: rest => do
    let (cs, tail) ← singleQuoted rest
    return (c :: cs, tail)

/-- A text in quotes of either kind, and what follows it. -/
def quoted? : List Char → Option (List Char × List Char)
  | '"' :: rest => doubleQuoted rest
  | '\'' :: rest => singleQuoted rest
  | _ => none

/-! ## Lists and tables in brackets -/

/-- The characters of a plain text in brackets. -/
def isFlowChar (c : Char) : Bool := ¬ "[]\x7b\x7d,:".toList.contains c

mutual

/-- A value in brackets, and what follows it. -/
def flowValue : Nat → List Char → Option (Tree × List Char)
  | 0, _ => none
  | fuel + 1, cs =>
    match cs.dropWhile isGap with
    | '[' :: rest =>
      match rest.dropWhile isGap with
      | ']' :: rest => some (.list [], rest)
      | rest => (flowItems fuel rest).map fun r => (.list r.1, r.2)
    | '{' :: rest =>
      match rest.dropWhile isGap with
      | '}' :: rest => some (.nothing, rest)
      | rest => (flowEntries fuel rest).map fun r => (.table r.1, r.2)
    | cs =>
      match quoted? cs with
      | some (s, rest) => some (.text (String.ofList s), rest)
      | none =>
        let plain := trimEnd (cs.takeWhile isFlowChar)
        if isPlain plain then some (scalar plain, cs.dropWhile isFlowChar) else none

/-- The items of a list up to its end, and what follows it. -/
def flowItems : Nat → List Char → Option (List Tree × List Char)
  | 0, _ => none
  | fuel + 1, cs => do
    let (t, rest) ← flowValue fuel cs
    match rest.dropWhile isGap with
    | ']' :: rest => return ([t], rest)
    | ',' :: rest =>
      let (ts, rest) ← flowItems fuel rest
      return (t :: ts, rest)
    | _ => none

/-- The entries of a table up to its end, and what follows it. -/
def flowEntries : Nat → List Char → Option (List (String × Tree) × List Char)
  | 0, _ => none
  | fuel + 1, cs => do
    let cs := cs.dropWhile isGap
    let (name, rest) ← match quoted? cs with
      | some r => some r
      | none => some (trimEnd (cs.takeWhile isFlowChar), cs.dropWhile isFlowChar)
    guard (¬ name.isEmpty)
    match rest.dropWhile isGap with
    | ':' :: rest =>
      let (t, rest) ← flowValue fuel rest
      let entry := (Tree.fold (String.ofList name), t)
      match rest.dropWhile isGap with
      | '}' :: rest => return ([entry], rest)
      | ',' :: rest =>
        let (es, rest) ← flowEntries fuel rest
        return (entry :: es, rest)
      | _ => none
    | _ => none

end

/-- The value that is written on the rest of a line. -/
def inlineValue (cs : List Char) : Option Tree :=
  match cs with
  | [] => some .null
  | c :: _ =>
    if c = '[' ∨ c = '{' then
      match flowValue (cs.length + 1) cs with
      | some (t, rest) => if isTail rest then some t else none
      | none => none
    else if c = '"' ∨ c = '\'' then
      match quoted? cs with
      | some (s, rest) => if isTail rest then some (.text (String.ofList s)) else none
      | none => none
    else
      let plain := trimEnd (plainPart true cs)
      if isPlain plain then some (scalar plain) else none

/-! ## Blocks -/

/-- The plain name before a colon that a blank or the end of the line follows. -/
def plainName : List Char → Option (List Char × List Char)
  | [] => none
  | c :: rest =>
    if c = ':' ∧ rest.head?.all isGap then some ([], rest)
    else if isGap c ∧ rest.head? = some '#' then none
    else (plainName rest).map fun r => (c :: r.1, r.2)

/-- The name of an entry, and the rest of its line. -/
def cutEntry (cs : List Char) : Option (String × List Char) := do
  let (name, rest) ← match quoted? cs with
    | some (s, rest) =>
      match rest.dropWhile isGap with
      | ':' :: tail => if tail.head?.all isGap then some (s, tail) else none
      | _ => none
    | none => do
      let (name, rest) ← plainName cs
      let name := trimEnd name
      if ¬ name.isEmpty ∧ isPlain name then some (name, rest) else none
  return (Tree.fold (String.ofList name), rest.dropWhile isGap)

/-- The item of a list after its dash. -/
def item? : List Char → Option (List Char)
  | '-' :: rest => if rest.head?.all isGap then some (rest.dropWhile isGap) else none
  | _ => none

/-- The items of a list that are indented alike, and the lines that follow them. -/
def items (indent : Nat) : List Line → Option (List Tree × List Line)
  | [] => some ([], [])
  | l :: rest =>
    if l.indent = indent then
      match item? l.content with
      | some cs => do
        let t ← inlineValue cs
        let (ts, rest) ← items indent rest
        return (t :: ts, rest)
      | none => some ([], l :: rest)
    else if l.indent < indent then some ([], l :: rest)
    else none

mutual

/-- The block that the lines begin with, and the lines that follow it. -/
def block : Nat → List Line → Option (Tree × List Line)
  | 0, _ => none
  | _, [] => some (.null, [])
  | fuel + 1, l :: rest =>
    if (item? l.content).isSome then
      (items l.indent (l :: rest)).map fun r => (.list r.1, r.2)
    else if (cutEntry l.content).isSome then
      (entries fuel l.indent (l :: rest)).map fun r => (.table r.1, r.2)
    else (inlineValue l.content).map (·, rest)

/-- The entries that are indented alike, and the lines that follow them. -/
def entries : Nat → Nat → List Line → Option (List (String × Tree) × List Line)
  | 0, _, _ => none
  | _, _, [] => some ([], [])
  | fuel + 1, indent, l :: rest =>
    if l.indent < indent then some ([], l :: rest)
    else if indent < l.indent then none
    else do
      let (name, value) ← cutEntry l.content
      let (t, rest) ← if isTail (' ' :: value) then nested fuel indent rest
        else (inlineValue value).map (·, rest)
      let (es, rest) ← entries fuel indent rest
      return ((name, t) :: es, rest)

/-- The value of an entry that has none on its line. -/
def nested : Nat → Nat → List Line → Option (Tree × List Line)
  | 0, _, _ => none
  | _, _, [] => some (.null, [])
  | fuel + 1, indent, l :: rest =>
    if indent < l.indent then block fuel (l :: rest)
    else if l.indent = indent ∧ (item? l.content).isSome then
      (items indent (l :: rest)).map fun r => (.list r.1, r.2)
    else some (.null, l :: rest)

end

/-- The settings of a document, which has to be a table; an empty document has none. -/
def read (text : String) : Option Tree :=
  match lines text with
  | [] => some .nothing
  | ls =>
    match block (3 * ls.length + 1) ls with
    | some (.table es, []) => some (.table es)
    | _ => none

end Footage.Config.Document
