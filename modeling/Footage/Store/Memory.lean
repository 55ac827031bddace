import Footage.Store.Backend

/-!
# The store in memory

A sorted table of items. It can be told to return smaller pages and to fail, and it counts the range
reads that it is asked for. A page that fills its limit always names a key to resume after, even
where nothing follows.
-/

namespace Footage

/-- The calls that a store in memory fails. -/
structure Faults where
  get : Bool := false
  put : Bool := false
  read : Bool := false
  /-- The number of the first range read to fail, and every later one with it. -/
  readsFrom : Option Nat := none
  deriving DecidableEq, Repr

/-- A store in memory. -/
structure Memory where
  rows : OrderedMap Key Attributes := .empty
  /-- The most items on one page. -/
  pageSize : Option Nat := none
  faults : Faults := {}
  /-- The range reads asked for so far. -/
  reads : Nat := 0
  deriving DecidableEq

namespace Memory

/-- The items in ascending order of keys. -/
def items (m : Memory) : List Item := m.rows.entries.map fun e => ⟨e.1, e.2⟩

/-- The number of items. -/
def size (m : Memory) : Nat := m.rows.size

/-- The items of a partition in ascending order. -/
def partition (m : Memory) (p : String) : List Item := m.items.filter (·.key.partition = p)

/-- The item under a key. -/
def find? (m : Memory) (key : Key) : Option Item := (m.rows.get? key).map (⟨key, ·⟩)

/-- The store with an item in place of the one that has its key. -/
def store (m : Memory) (i : Item) : Memory :=
  { m with rows := m.rows.insert i.key i.attributes }

/-- The number that the next range read gets. -/
def attempt (m : Memory) : Nat := Count.wrap m.reads

/-- The store that is to let `n` more range reads through and then to fail. Nothing looks at the size
of the sum, so a large `n` gives a limit that lies before the next read. -/
def failingAfter (m : Memory) (n : Nat) : Memory :=
  { m with faults := { m.faults with readsFrom := some (Count.wrap (m.attempt + n)) } }

/-- The most items on a page of a query: the smaller of the two limits, at least one. -/
def pageLimit (m : Memory) (q : RangeRead) : Option Nat :=
  (match q.limit, m.pageSize with
    | some a, some b => some (min a b)
    | a, b => a.or b).map (max 1)

/-- The items that a query may still return. -/
def matching (m : Memory) (q : RangeRead) : List Item := m.items.filter (q.Covers ·.key)

/-- The page of a query. -/
def page (m : Memory) (q : RangeRead) : RangePage :=
  match m.pageLimit q with
  | none => { items := m.matching q }
  | some n =>
    let items := (m.matching q).take n
    { items, next := if items.length = n then items.getLast?.map (·.key) else none }

@[simp] theorem find?_store_self (m : Memory) (i : Item) : (m.store i).find? i.key = some i := by
  simp [find?, store]

theorem find?_store_of_ne (m : Memory) (i : Item) {k : Key} (h : k ≠ i.key) :
    (m.store i).find? k = m.find? k := by
  simp [find?, store, OrderedMap.get?_insert_of_ne _ h]

theorem mem_items {m : Memory} {i : Item} : i ∈ m.items ↔ m.find? i.key = some i := by
  obtain ⟨k, as⟩ := i
  simp [items, find?, OrderedMap.mem_entries]

/-- The answer of a write. -/
def write (w : Write) : StoreTask Memory Unit := fun m =>
  if m.faults.put then (.error (.outage (.put w.item.key)), m)
  else if w.guard.all (·.Holds (m.find? w.item.key)) then (.ok (), m.store w.item)
  else (.error (.guardFailed w.item.key), m)

/-- The answer of a range read. -/
def read (q : RangeRead) : StoreTask Memory RangePage := fun m =>
  let m' := { m with reads := m.reads + 1 }
  if m.faults.read then (.error (.outage (.read q.partition)), m')
  else if m.faults.readsFrom.any (· ≤ m.attempt) then
    (.error (.outage (.readFrom q.partition m.attempt)), m')
  else (.ok (m.page q), m')

/-- The store in memory as a backend. A page that names a key to resume after holds the item of that
key, so every read gets further. -/
def backend : Backend Memory where
  get key := fun m =>
    if m.faults.get then (.error (.outage (.get key)), m) else (.ok (m.find? key), m)
  write := write
  read := read
  idle _ := 0

end Memory

end Footage
