import Footage.Bucket
import Footage.Store.Error

/-!
# Failures of a request

A request fails because the store fails, because an event does not agree with its bucket, or because
the caller sent something unusable.
-/

namespace Footage

/-- Why a continuation token is refused. -/
inductive TokenError
  | notBase64
  | malformed
  /-- It belongs to a listing of another partition. -/
  | foreign (issuedFor asked : String)
  | outside (position start stop : Int)
  | lastPeriod (position : Int)
  deriving DecidableEq, Repr

namespace TokenError

def message : TokenError → String
  | notBase64 => "not base64"
  | malformed => "malformed body"
  | foreign issuedFor asked => "token was issued for '" ++ issuedFor ++ "', not '" ++ asked ++ "'"
  | outside position start stop =>
    "token position " ++ toString position ++ " is outside [" ++ toString start ++ ", " ++
      toString stop ++ ")"
  | lastPeriod position => "token position " ++ toString position ++ " has no following period"

end TokenError

/-- Why a request is refused. -/
inductive RequestError
  | misaligned (g : Granularity) (bucketStart : Int)
  | badIncrement (g : Granularity) (increment : Int)
  | emptyRange (start stop : Int)
  | reversedRange (start stop : Int)
  | tooEarly (stop : Int)
  | densityTooLarge (density : Nat)
  | durationTooLarge (duration : Nat)
  deriving DecidableEq, Repr

namespace RequestError

def message : RequestError → String
  | misaligned g start => "bucket start " ++ toString start ++ " is not aligned to " ++ g.name
  | badIncrement g increment =>
    "increment " ++ toString increment ++ "ms is not a positive multiple of the " ++ g.name ++
      " bucket (" ++ toString g.millis ++ "ms)"
  | emptyRange start stop => "start " ++ toString start ++ " is not before end " ++ toString stop
  | reversedRange start stop => "start " ++ toString start ++ " is after end " ++ toString stop
  | tooEarly stop => "end " ++ toString stop ++ " is too far in the past"
  | densityTooLarge d => "density " ++ toString d ++ "ms does not fit a stored number"
  | durationTooLarge d => "duration " ++ toString d ++ "ms does not fit a stored number"

end RequestError

/-- Why a request did not succeed. -/
inductive Failure
  | store (e : StoreError)
  | consistency (e : BucketError)
  | token (e : TokenError)
  | request (e : RequestError)
  deriving DecidableEq, Repr

namespace Failure

/-- An attribute cannot be read. -/
def unreadable (e : AttributeError) : Failure := store (.item e)

def message : Failure → String
  | store e => e.message
  | consistency e => e.message
  | token e => "Invalid continuation token: " ++ e.message
  | request e => "Invalid request: " ++ e.message

/-- The caller sent something unusable. -/
def isCallersFault : Failure → Bool
  | token _ => true
  | request _ => true
  | _ => false

end Failure

end Footage
