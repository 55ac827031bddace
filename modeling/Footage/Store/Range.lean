import Footage.Store.Item
import Footage.Stamp

/-!
# Range reads

A range read asks for the items of one partition between two sort numbers, both included, in
ascending order. The answer is one page; where the store may hold more, it names a key after which
the next read resumes.
-/

namespace Footage

/-- A range read. -/
structure RangeRead where
  partition : String
  lower : Int
  upper : Int
  /-- The key after which to resume. -/
  after : Option Key := none
  /-- The most items to return. -/
  limit : Option Nat := none
  deriving DecidableEq, Repr

namespace RangeRead

/-- The least sort number that the query may still return. -/
def least (q : RangeRead) : Int :=
  match q.after with
  | some key => max q.lower (Stamp.next key.sort)
  | none => q.lower

/-- The same read, resumed after a key. -/
def resumed (q : RangeRead) (after : Option Key) : RangeRead := { q with after }

/-- The keys that the query may still return. -/
def Covers (q : RangeRead) (k : Key) : Prop :=
  k.partition = q.partition ∧ q.least ≤ k.sort ∧ k.sort ≤ q.upper

/-- The number of the positions at which the read can be resumed: the stored numbers up to its upper
end. -/
def positions (q : RangeRead) : Nat := (q.upper - Stamp.least + 1).toNat

instance (q : RangeRead) : DecidablePred q.Covers := fun k =>
  inferInstanceAs
    (Decidable (k.partition = q.partition ∧ q.least ≤ k.sort ∧ k.sort ≤ q.upper))

end RangeRead

/-- One page of a range read. -/
structure RangePage where
  items : List Item := []
  /-- The key after which to resume, where the store may hold more. -/
  next : Option Key := none
  deriving DecidableEq

end Footage
