/-!
# Settings

What can be set: which store to use and how listings are paged.
-/

namespace Footage

/-- How much is read and listed at a time, and how long records of fragments are kept. -/
structure Paging where
  /-- The most buckets that one range read asks for; without it the store decides. -/
  bucketsPerRead : Option Nat := none
  /-- The most periods on a page. -/
  periodsPerPage : Nat := 10000
  /-- The most fragments on a page. -/
  fragmentsPerPage : Nat := 100
  /-- The days for which the record of a fragment is kept. -/
  retentionDays : Nat := 90
  deriving DecidableEq, Repr

namespace Paging

/-- The limit of a range read for buckets: at least one. -/
def bucketLimit (p : Paging) : Option Nat := p.bucketsPerRead.map (max 1)

/-- The limit on the periods of a page: at least one. -/
def periodLimit (p : Paging) : Nat := max 1 p.periodsPerPage

/-- The limit on the fragments of a page: at least one. -/
def fragmentLimit (p : Paging) : Nat := max 1 p.fragmentsPerPage

end Paging

/-- The kinds of store. -/
inductive StoreKind
  | memory
  | dynamo
  deriving DecidableEq, Repr

namespace StoreKind

def name : StoreKind → String
  | memory => "memory"
  | dynamo => "dynamo"

end StoreKind

/-- The tables of a remote store. -/
structure RemoteTables where
  fragmentTable : String := "video-density-raw"
  bucketTable : String := "video-density"
  endpoint : Option String := none
  deriving DecidableEq, Repr

/-- Which store to use. -/
structure StoreSettings where
  kind : StoreKind := .memory
  dynamo : RemoteTables := {}
  deriving DecidableEq, Repr

/-- All settings. -/
structure Settings where
  store : StoreSettings := {}
  paging : Paging := {}
  deriving DecidableEq, Repr

end Footage
