import Footage.Journal
import Footage.Listing
import Footage.Store.Open

/-!
# Replay

A replay reads events, applies each to its bucket in a new store, and lists the periods that its
arguments ask for, page by page. Whatever goes wrong ends it with the exit code 1; the pages written
until then stay written.
-/

namespace Footage.Replay

/-- The argument by which lines that are not events are passed over. -/
def lenientFlag : String := "--skip-invalid"

/-- The arguments of a replay. -/
structure Arguments where
  lenient : Bool
  request : Listing.Request
  deriving DecidableEq, Repr

/-- The stored number that an argument writes. -/
def number? (s : String) : Option Int := (Decimal.read s.toList).toOption

/-- The arguments, if there are five besides the flag and each can be read. -/
def Arguments.parse? (args : List String) : Option Arguments :=
  match args.filter (· ≠ lenientFlag) with
  | [device, unit, start, stop, increment] => do
    let granularity ← Granularity.parse? unit
    return {
      lenient := args.contains lenientFlag
      request := {
        device, granularity
        start := ← number? start
        stop := ← number? stop
        increment := ← number? increment } }
  | _ => none

/-- What a replay leaves behind. -/
structure Outcome where
  code : Nat
  pages : List PeriodPage
  deriving DecidableEq, Repr

/-- The outcome of a replay that fails before it lists anything. -/
def failed : Outcome := ⟨1, []⟩

section

variable {σ : Type}

/-- Apply events one after the other. -/
def applyAll (b : Backend σ) : List Event → DeskTask σ Unit
  | [] => pure ()
  | e :: rest => do
    let _ ← Rollup.save b e
    applyAll b rest

/-- The pages of a listing from a token on. -/
def pages (b : Backend σ) (p : Paging) (r : Listing.Request) :
    Nat → Option String → StateM (Desk σ) Outcome
  | 0, _ => return failed
  | fuel + 1, token => do
    match ← (Listing.page b p { r with token }).run with
    | .error _ => return failed
    | .ok page =>
      match page.token with
      | none => return ⟨0, [page]⟩
      | some token =>
        let rest ← pages b p r fuel (some token)
        return { rest with pages := page :: rest.pages }

/-- The most pages that a listing can have: one for each of its periods. -/
def maxPages (r : Listing.Request) : Nat := ((r.stop - r.start) / r.increment).toNat + 1

end

/-- A replay of the events of `input`, each found by a parser of texts. No clock reading shows in a
listing, so the clock stands still. -/
def runBy (parse? : String → Option Event) (args : List String) (settings : Option Settings)
    (input : List UInt8) : Outcome :=
  match Arguments.parse? args, settings with
  | some a, some s =>
    match StorePair.init s.store, Journal.readBy parse? a.lenient input with
    | .ok stores, .ok batch =>
      match (applyAll Memory.backend batch.events).run ⟨stores.buckets, ⟨0, 0⟩⟩ with
      | (.ok (), desk) => (pages Memory.backend s.paging a.request (maxPages a.request) none desk).1
      | _ => failed
    | _, _ => failed
  | _, _ => failed

/-- A replay of the events of `input`. -/
def run (args : List String) (settings : Option Settings) (input : List UInt8) : Outcome :=
  runBy Event.parse? args settings input

end Footage.Replay
