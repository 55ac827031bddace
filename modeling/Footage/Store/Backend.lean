import Footage.Store.Error
import Footage.Store.Range
import Footage.Task

/-!
# Backends

Everything above the stores talks to one through a `Backend`: point reads, writes, guarded writes and
range reads on some state. A step that fails may have changed the state all the same, as a request
counts even if it is refused.
-/

namespace Footage

/-- A step on a store with the state `σ`. -/
abbrev StoreTask (σ : Type) := Task σ StoreError

/-- A write, with the condition under which it is to be done, if any. -/
structure Write where
  item : Item
  guard : Option Condition := none
  deriving DecidableEq

/-- A sorted store of items. -/
structure Backend (σ : Type) where
  /-- The item under a key. -/
  get : Key → StoreTask σ (Option Item)
  /-- Store an item in place of the one that has its key; where a condition is given it is checked
  together with the write, and the write is refused if it does not hold. -/
  write : Write → StoreTask σ Unit
  /-- One page of a range read. -/
  read : RangeRead → StoreTask σ RangePage
  /-- The most range reads that are still answered without getting any further in the range. -/
  idle : σ → Nat

end Footage
