import Footage.Config.Document
import Footage.Config.Settings

/-!
# Loading settings

Settings are laid over one another in the order of their sources: documents first, then variables of
the environment. Only the result is checked, but every document has to be readable.
-/

namespace Footage.Config

/-- The beginning of the names of the variables that count. -/
def variableStart : String := "density__"

/-- A name cut at each pair of underscores. -/
def path (name : String) : List String := name.splitOn "__"

/-- What the value of a variable stands for. -/
def variableValue (s : String) : Tree :=
  if Tree.fold s = "true" then .truth true
  else if Tree.fold s = "false" then .truth false
  else match Decimal.read s.toList with
    | .ok n => .integer n
    | .error _ =>
      match Real.parse? s.toList with
      | some r => .real r
      | none => .text s

/-- The settings of a variable: after its beginning, its name is the path of a setting. -/
def variableTree (name value : String) : Option Tree := do
  let name := Tree.fold name
  let rest := name.toList.drop variableStart.length
  if variableStart.toList.isPrefixOf name.toList then
    let names := path (String.ofList rest)
    if names.contains "" then none else some ((variableValue value).atPath names)
  else none

/-- One tree laid over another. -/
def layOver (below above : Tree) : Tree := below.layAll above.entries

end Footage.Config

namespace Footage.Settings

open Config Config.Tree

/-- The names of the sections. -/
def sectionNames : List String := ["storage", "timeline"]

def storeNames : List String := ["type", "dynamo"]

def tableNames : List String := ["raw_table_name", "aggregate_table_name", "endpoint_url"]

def pagingNames : List String :=
  ["query_page_size", "max_periods_per_page", "raw_page_size", "raw_retention_days"]

/-- The kind of store of this name. -/
def kind? (t : Tree) : Option StoreKind := do
  let word ← t.toWord?
  [StoreKind.memory, StoreKind.dynamo].find? (·.name == word)

def tables? (t : Option Tree) : Option RemoteTables := do
  let d : RemoteTables := {}
  match ← section? tableNames t with
  | [raw, aggregate, endpoint] =>
    return {
      fragmentTable := ← setting toText? d.fragmentTable raw
      bucketTable := ← setting toText? d.bucketTable aggregate
      endpoint := ← setting (orNull toText?) d.endpoint endpoint }
  | _ => none

def store? (t : Option Tree) : Option StoreSettings := do
  let d : StoreSettings := {}
  match ← section? storeNames t with
  | [kind, dynamo] =>
    return { kind := ← setting kind? d.kind kind, dynamo := ← tables? dynamo }
  | _ => none

/-- The most days for which a record can be kept. -/
def greatestRetention : Nat := 4294967295

def paging? (t : Option Tree) : Option Paging := do
  let d : Paging := {}
  match ← section? pagingNames t with
  | [query, periods, raw, days] =>
    return {
      bucketsPerRead := ← setting (orNull toCount?) d.bucketsPerRead query
      periodsPerPage := ← setting toCount? d.periodsPerPage periods
      fragmentsPerPage := ← setting toCount? d.fragmentsPerPage raw
      retentionDays := ← setting (toCountUpTo? greatestRetention) d.retentionDays days }
  | _ => none

/-- The settings of a tree. -/
def ofTree? (t : Tree) : Option Settings := do
  match ← section? sectionNames (some t) with
  | [store, paging] => return { store := ← store? store, paging := ← paging? paging }
  | _ => none

end Footage.Settings

namespace Footage.Config

/-- The settings of documents and variables; a document that cannot be read is none. -/
def load (documents : List (Option String)) (environment : List (String × String)) :
    Option Settings := do
  let texts ← documents.mapM id
  let trees ← texts.mapM Document.read
  let above := environment.filterMap fun v => variableTree v.1 v.2
  Settings.ofTree? ((trees ++ above).foldl layOver .nothing)

end Footage.Config
