import Footage.Proofs.Period
import Footage.Proofs.Rollup.Save
import Footage.Proofs.Store.Reads

/-!
# The buckets of stored items

`decoded` are the buckets that items store. Where every item can be read, reading them all gives these
buckets (`mapM_ofItem`), in the order of the items and each under the number of its item.
-/

namespace Footage

namespace Bucket

variable {device : String} {g : Granularity} {is : List Item}

/-- The buckets that can be read from items. -/
def decoded (device : String) (g : Granularity) (is : List Item) : List Bucket :=
  is.filterMap fun i => (ofItem device g i).toOption

theorem mapM_ofItem (h : ∀ i ∈ is, ∃ b, ofItem device g i = .ok b) :
    is.mapM (ofItem device g) = .ok (decoded device g is) := Memory.mapM_eq_decoded h

theorem start_of_ofItem (i : Item) (b : Bucket) (h : ofItem device g i = .ok b) : b.start = i.key.sort :=
  (parts_of_ofItem h).2.2

theorem decoded_filter (P : Int → Prop) [DecidablePred P] :
    decoded device g (is.filter (P ·.key.sort)) = (decoded device g is).filter (P ·.start) := by
  unfold decoded
  rw [List.filterMap_filter, List.filter_filterMap]
  congr 1
  funext i
  cases ho : ofItem device g i with
  | error => simp [Except.toOption]
  | ok b =>
    obtain ⟨-, -, hs⟩ := parts_of_ofItem ho
    simp [Except.toOption, Option.filter, hs]

theorem sorted_decoded (h : is.Pairwise fun a b => a.key.sort < b.key.sort) :
    Period.Sorted (decoded device g is) := Memory.pairwise_decoded start_of_ofItem h

end Bucket

namespace Memory

/-- The buckets of a device that a store holds, in ascending order. -/
def buckets (m : Memory) (device : String) (g : Granularity) : List Bucket :=
  Bucket.decoded device g (m.partition (Bucket.partition device g))

theorem sorted_buckets (m : Memory) (device : String) (g : Granularity) :
    Period.Sorted (m.buckets device g) := Bucket.sorted_decoded (m.ascending_partition _)

theorem mem_buckets {m : Memory} {device : String} {g : Granularity} {b : Bucket} :
    b ∈ m.buckets device g ↔ m.bucket device g b.start = .ok (some b) :=
  mem_decoded_partition Bucket.start_of_ofItem

end Memory

end Footage
