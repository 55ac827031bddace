import Footage.Forms
import Footage.Text.Blank

/-!
# Lines of events

Events come as bytes, one JSON text a line. A line ends at a line feed, and a carriage return before
it does not belong to the line. Blank lines are passed over. A line that is not an event ends the
reading, or is counted and passed over where that is allowed; one that is not UTF-8 always ends it.
-/

namespace Footage.Journal

/-- Why lines cannot be read. -/
inductive Fault
  /-- The line of this number, from one, is not an event. -/
  | notEvent (line : Nat)
  | notText
  deriving DecidableEq, Repr

namespace Fault

def message : Fault → String
  | notEvent line => "line " ++ toString line ++ ": unparsable event"
  | notText => "stream did not contain valid UTF-8"

end Fault

/-- The events of the lines, and the number of lines passed over that are not events. -/
structure Batch where
  events : List Event := []
  skipped : Nat := 0
  deriving DecidableEq, Repr

/-- A line up to its line feed, without a carriage return before that. -/
def closeLine (reversed : List UInt8) : List UInt8 :=
  match reversed with
  | 13 :: rest => rest.reverse
  | line => line.reverse

/-- The lines of the bytes, after the part of a line read so far, which is in reverse order. -/
def splitLines (seen : List UInt8) : List UInt8 → List (List UInt8)
  | [] => if seen.isEmpty then [] else [seen.reverse]
  | 10 :: rest => closeLine seen :: splitLines [] rest
  | b :: rest => splitLines (b :: seen) rest

/-- The lines of the bytes. -/
def lines (bytes : List UInt8) : List (List UInt8) := splitLines [] bytes

/-- The text has nothing but blanks. -/
def isBlank (s : String) : Bool := s.toList.all Text.isBlank

/-- Read lines, of which the first has the number `n`, after those of a batch, whose events are in
reverse order. -/
def readLines (parse? : String → Option Event) (lenient : Bool) (n : Nat) (batch : Batch) :
    List (List UInt8) → Except Fault Batch
  | [] => .ok { batch with events := batch.events.reverse }
  | line :: rest =>
    match Text.ofBytes? line with
    | none => .error .notText
    | some s =>
      if isBlank s then readLines parse? lenient (n + 1) batch rest
      else match parse? s with
        | some e => readLines parse? lenient (n + 1) { batch with events := e :: batch.events } rest
        | none =>
          if lenient then
            readLines parse? lenient (n + 1) { batch with skipped := batch.skipped + 1 } rest
          else .error (.notEvent n)

/-- The events of the bytes, each found by a parser of texts. -/
def readBy (parse? : String → Option Event) (lenient : Bool) (bytes : List UInt8) :
    Except Fault Batch :=
  readLines parse? lenient 1 {} (lines bytes)

/-- The events of the bytes. -/
def read (lenient : Bool) (bytes : List UInt8) : Except Fault Batch :=
  readBy Event.parse? lenient bytes

end Footage.Journal
