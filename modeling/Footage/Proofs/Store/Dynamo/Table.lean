import Footage.Proofs.Store.Dynamo.Wire
import Footage.Proofs.Task
import Footage.Store.Dynamo.Backend

/-!
# What a remote table promises

A service is sent the name of an operation and a JSON body, in which conditions are texts. What it
promises to do is said in three steps.

1. `Request.read?` understands a body. What is asked can be told from what is sent (`read?_body`).
2. `Table.answer` is what a table of items under their keys answers to a request, and what it keeps.
3. A reply says an answer (`Reply.Says`), so a client that reads it has the answer.

A service that does all this keeps a table (`Keeps`). Nothing is promised about other requests.
-/

namespace Footage.Dynamo

open Json Json.Value

/-! ## Understanding requests -/

namespace Members

def text? (members : Members) (name : String) : Option String := (members.member? name).bind toString?

def object? (members : Members) (name : String) : Option Members :=
  match members.member? name with
  | some (object members) => some members
  | _ => none

def wire? (members : Members) (name : String) : Option Wire := (members.member? name).bind Wire.ofValue?

def item? (members : Members) (name : String) : Option WireItem :=
  (members.member? name).bind WireItem.ofValue?

/-- The reader is to see every write before it. -/
def isConsistent (members : Members) : Bool :=
  match members.member? "ConsistentRead" with
  | some (truth b) => b
  | _ => false

/-- The name and the value that guard a write. A condition of any other form is not understood. -/
def guard? (members : Members) : Option (Option (String × Wire)) :=
  match members.member? "ConditionExpression" with
  | none => some none
  | some v => do
    guard (v.toString? = some "attribute_not_exists(pk) OR #attr <> :val")
    let name ← (← members.object? "ExpressionAttributeNames").text? "#attr"
    let value ← (← members.object? "ExpressionAttributeValues").wire? ":val"
    return some (name, value)

/-- The most items that are asked for. -/
def limit? (members : Members) : Option (Option Nat) :=
  match members.member? "Limit" with
  | none => some none
  | some (number n) => n.toInt?.map fun i => some i.toNat
  | some _ => none

theorem member?_eq {members : Members} {name : String} {v : Value}
    (h : members.reverse.find? (·.1 = some name) = some (some name, v)) (hv : v ≠ null) :
    members.member? name = some v := by
  unfold member?
  rw [h]
  cases v <;> first | rfl | exact absurd rfl hv

/-- A page of items and a key to resume after, as they are sent. -/
theorem page?_eq {members : Members} {items : List WireItem} {next : Option Key}
    (hitems : members.member? "Items" = some (array (items.map (·.toValue))))
    (hnext : members.member? "LastEvaluatedKey" = next.map fun k => (ofKey k).toValue) :
    members.page? = some (items, next.map ofKey) := by
  have hkept : ∀ P : Value → Bool, (∀ m : WireItem, P m.toValue = true) →
      (items.map (·.toValue)).filter P = items.map (·.toValue) := fun P hP =>
    List.filter_eq_self.2 fun v hv => by
      obtain ⟨m, -, rfl⟩ := List.mem_map.1 hv
      exact hP m
  have hkey : (members.member? "LastEvaluatedKey").mapM WireItem.ofValue? = some (next.map ofKey) := by
    rw [hnext]
    cases next with
    | none => rfl
    | some k => exact congrArg (Option.map some) (WireItem.ofValue?_toValue (ofKey k))
  unfold page?
  simp only [hitems, hkey]
  rw [hkept, mapM_map_eq_pure fun m _ => WireItem.ofValue?_toValue m]
  · rfl
  · exact fun _ => rfl

end Members

namespace Request

/-- The table that a request is about. -/
def table : Request → String
  | get table _ => table
  | put table _ _ => table
  | query table _ _ _ _ _ => table

/-- The request of an operation with the members of its body. -/
def ofMembers? (target : String) (members : Members) : Option Request := do
  let table ← members.text? "TableName"
  match target with
  | "GetItem" =>
    guard members.isConsistent
    return get table (← members.item? "Key")
  | "PutItem" => return put table (← members.item? "Item") (← members.guard?)
  | "Query" =>
    guard members.isConsistent
    guard (members.text? "KeyConditionExpression" = some "pk = :pk AND sk BETWEEN :lo AND :hi")
    let values ← members.object? "ExpressionAttributeValues"
    let after ← (members.member? "ExclusiveStartKey").mapM WireItem.ofValue?
    return query table (← values.wire? ":pk") (← values.wire? ":lo") (← values.wire? ":hi") after
      (← members.limit?)
  | _ => none

/-- The request that an operation and a body make. -/
def read? (target : String) : Value → Option Request
  | object members => ofMembers? target members
  | _ => none

variable {members values names : Members} {name tbl : String}

theorem wire?_eq {w : Wire}
    (h : members.reverse.find? (·.1 = some name) = some (some name, w.toValue)) :
    members.wire? name = some w := by
  have hne : w.toValue ≠ null := by cases w <;> exact fun h => by cases h
  unfold Members.wire?
  rw [Members.member?_eq h hne]
  exact Wire.ofValue?_toValue w

theorem item?_eq {m : WireItem}
    (h : members.reverse.find? (·.1 = some name) = some (some name, m.toValue)) :
    members.item? name = some m := by
  have hne : m.toValue ≠ null := fun h => by cases h
  unfold Members.item?
  rw [Members.member?_eq h hne]
  exact WireItem.ofValue?_toValue m

theorem guard?_eq {w : Wire}
    (hc : members.member? "ConditionExpression" = some (str "attribute_not_exists(pk) OR #attr <> :val"))
    (hns : members.object? "ExpressionAttributeNames" = some names) (hn : names.text? "#attr" = some name)
    (hvs : members.object? "ExpressionAttributeValues" = some values) (hv : values.wire? ":val" = some w) :
    members.guard? = some (some (name, w)) := by
  unfold Members.guard?
  rw [hc]
  refine Option.bind_eq_some_iff.2 ⟨(), rfl, ?_⟩
  refine Option.bind_eq_some_iff.2 ⟨names, hns, Option.bind_eq_some_iff.2 ⟨name, hn, ?_⟩⟩
  exact Option.bind_eq_some_iff.2 ⟨values, hvs, Option.bind_eq_some_iff.2 ⟨w, hv, rfl⟩⟩

theorem ofMembers?_get {key : WireItem} (ht : members.text? "TableName" = some tbl)
    (hc : members.isConsistent = true) (hk : members.item? "Key" = some key) :
    ofMembers? "GetItem" members = some (get tbl key) := by
  unfold ofMembers?
  rw [ht, hc, hk]
  rfl

theorem ofMembers?_put {item : WireItem} {condition : Option (String × Wire)}
    (ht : members.text? "TableName" = some tbl) (hi : members.item? "Item" = some item)
    (hg : members.guard? = some condition) :
    ofMembers? "PutItem" members = some (put tbl item condition) := by
  unfold ofMembers?
  rw [ht, hi, hg]
  rfl

theorem ofMembers?_query {partition lower upper : Wire} {after : Option WireItem} {limit : Option Nat}
    (ht : members.text? "TableName" = some tbl) (hc : members.isConsistent = true)
    (hk : members.text? "KeyConditionExpression" = some "pk = :pk AND sk BETWEEN :lo AND :hi")
    (hvs : members.object? "ExpressionAttributeValues" = some values)
    (hp : values.wire? ":pk" = some partition) (hl : values.wire? ":lo" = some lower)
    (hu : values.wire? ":hi" = some upper)
    (ha : (members.member? "ExclusiveStartKey").mapM WireItem.ofValue? = some after)
    (hn : members.limit? = some limit) :
    ofMembers? "Query" members = some (query tbl partition lower upper after limit) := by
  unfold ofMembers?
  refine Option.bind_eq_some_iff.2 ⟨tbl, ht, Option.bind_eq_some_iff.2 ⟨(), if_pos hc, ?_⟩⟩
  refine Option.bind_eq_some_iff.2 ⟨(), if_pos hk, Option.bind_eq_some_iff.2 ⟨values, hvs, ?_⟩⟩
  refine Option.bind_eq_some_iff.2 ⟨after, ha, Option.bind_eq_some_iff.2 ⟨partition, hp, ?_⟩⟩
  refine Option.bind_eq_some_iff.2 ⟨lower, hl, Option.bind_eq_some_iff.2 ⟨upper, hu, ?_⟩⟩
  exact Option.bind_eq_some_iff.2 ⟨limit, hn, rfl⟩

/-- What is asked can be told from what is sent. -/
theorem read?_body (r : Request) : read? r.target r.body = some r := by
  cases r with
  | get tbl key => exact ofMembers?_get rfl rfl (item?_eq rfl)
  | put tbl item condition =>
    cases condition with
    | none => exact ofMembers?_put rfl (item?_eq rfl) rfl
    | some c => exact ofMembers?_put rfl (item?_eq rfl) (guard?_eq rfl rfl rfl rfl (wire?_eq rfl))
  | query tbl partition lower upper after limit =>
    have hkey : ∀ key : WireItem, (WireItem.ofValue? key.toValue).map some = some (some key) := fun key =>
      congrArg (Option.map some) (WireItem.ofValue?_toValue key)
    have hvalues : ∀ members : Members, members.text? "TableName" = some tbl → members.isConsistent = true →
        members.text? "KeyConditionExpression" = some "pk = :pk AND sk BETWEEN :lo AND :hi" →
        members.object? "ExpressionAttributeValues" = some [(some ":pk", partition.toValue),
          (some ":lo", lower.toValue), (some ":hi", upper.toValue)] →
        (members.member? "ExclusiveStartKey").mapM WireItem.ofValue? = some after →
        members.limit? = some limit →
        ofMembers? "Query" members = some (query tbl partition lower upper after limit) :=
      fun _ ht hc hk hvs => ofMembers?_query ht hc hk hvs (wire?_eq rfl) (wire?_eq rfl) (wire?_eq rfl)
    cases after with
    | none => cases limit <;> exact hvalues _ rfl rfl rfl rfl rfl rfl
    | some key => cases limit <;> exact hvalues _ rfl rfl rfl rfl (hkey key) rfl

end Request

/-! ## Answers -/

namespace Table

/-- What a table answers. -/
inductive Answer
  | item (found : Option WireItem)
  | stored
  /-- The condition of a write does not hold. -/
  | refused
  | page (items : List WireItem) (next : Option Key)

/-- The number that a value of an item is. -/
def number? : Wire → Option Int
  | .number digits => (Decimal.read digits.toList).toOption
  | _ => none

/-- The key of an item: the string under `pk` and the number under `sk`. -/
def key? (m : WireItem) : Option Key :=
  match m.get? "pk", m.get? "sk" with
  | some (.text partition), some w => (number? w).map (⟨partition, ·⟩)
  | _, _ => none

/-- There is no item, or what it has under the name is missing or another. -/
def Differs (found : Option WireItem) (name : String) (a : Attribute) : Prop :=
  ∀ m ∈ found, (m.get? name).bind Wire.toAttribute? ≠ some a

instance (found : Option WireItem) (name : String) (a : Attribute) : Decidable (Differs found name a) :=
  inferInstanceAs (Decidable (∀ m ∈ found, _ ≠ _))

/-- The items of a partition between two numbers, both included, that come after a key. -/
def between (rows : OrderedMap Key WireItem) (partition : String) (lower upper : Int) (after : Option Key) :
    List (Key × WireItem) :=
  rows.entries.filter fun e => e.1.partition = partition ∧ lower ≤ e.1.sort ∧ e.1.sort ≤ upper ∧
    after.all (·.sort < e.1.sort)

/-- A page of these items: a full one names its last key. -/
def pageOf (found : List (Key × WireItem)) (limit : Option Nat) : Answer :=
  let items := match limit with
    | some n => found.take n
    | none => found
  .page (items.map (·.2)) (if limit = some items.length then items.getLast?.map (·.1) else none)

/-- The answer to a request, and the items after it. -/
def answer (rows : OrderedMap Key WireItem) : Request → Option (Answer × OrderedMap Key WireItem)
  | .get _ key => do return (.item (rows.get? (← key? key)), rows)
  | .put _ item none => do return (.stored, rows.insert (← key? item) item)
  | .put _ item (some (name, value)) => do
    let k ← key? item
    let a ← value.toAttribute?
    return if Differs (rows.get? k) name a then (.stored, rows.insert k item) else (.refused, rows)
  | .query _ (.text partition) lower upper after limit => do
    let after ← after.mapM key?
    guard (after.all (·.partition = partition))
    return (pageOf (between rows partition (← number? lower) (← number? upper) after) limit, rows)
  | .query .. => none

variable {rows : OrderedMap Key WireItem} {tbl name : String} {key item m : WireItem} {k : Key} {i : Item}

theorem number?_ofAttribute {n : Int} (h : Stamp.Fits n) : number? (.ofAttribute (.number n)) = some n := by
  show (Decimal.read (String.ofList (Decimal.ofInt n)).toList).toOption = some n
  rw [String.toList_ofList, Decimal.read_ofInt h]
  rfl

theorem key?_eq (hk : Stamp.Fits k.sort) (hp : m.get? partitionName = some (.text k.partition))
    (hs : m.get? sortName = some (.ofAttribute (.number k.sort))) : key? m = some k := by
  have hnumber := number?_ofAttribute hk
  unfold key?
  rw [show m.get? "pk" = _ from hp, show m.get? "sk" = _ from hs]
  simp only [hnumber, Option.map_some]

theorem key?_ofKey (h : Stamp.Fits k.sort) : key? (ofKey k) = some k :=
  key?_eq h (get?_ofKey_partition k) (get?_ofKey_sort k)

theorem key?_ofItem (h : Sendable i) : key? (ofItem i) = some i.key :=
  key?_eq h.sort h.get?_ofItem_partition h.get?_ofItem_sort

theorem answer_get (hk : key? key = some k) : answer rows (.get tbl key) = some (.item (rows.get? k), rows) :=
  Option.bind_eq_some_iff.2 ⟨k, hk, rfl⟩

theorem answer_put (hk : key? item = some k) :
    answer rows (.put tbl item none) = some (.stored, rows.insert k item) :=
  Option.bind_eq_some_iff.2 ⟨k, hk, rfl⟩

theorem answer_guarded (hk : key? item = some k) {value : Wire} {a : Attribute}
    (ha : value.toAttribute? = some a) :
    answer rows (.put tbl item (some (name, value))) =
      some (if Differs (rows.get? k) name a then (.stored, rows.insert k item) else (.refused, rows)) :=
  Option.bind_eq_some_iff.2 ⟨k, hk, Option.bind_eq_some_iff.2 ⟨a, ha, rfl⟩⟩

theorem answer_query {partition : String} {lower upper : Int} {after : Option Key} (hl : Stamp.Fits lower)
    (hu : Stamp.Fits upper) (ha : ∀ k ∈ after, k.partition = partition ∧ Stamp.Fits k.sort)
    (limit : Option Nat) :
    answer rows (.query tbl (.text partition) (.ofAttribute (.number lower)) (.ofAttribute (.number upper))
      (after.map ofKey) limit) =
        some (pageOf (between rows partition lower upper after) limit, rows) := by
  have hafter : (after.map ofKey).mapM key? = some after ∧ after.all (·.partition = partition) = true := by
    cases after with
    | none => exact ⟨rfl, rfl⟩
    | some k =>
      exact ⟨congrArg (Option.map some) (key?_ofKey (ha k rfl).2), decide_eq_true (ha k rfl).1⟩
  refine Option.bind_eq_some_iff.2 ⟨after, hafter.1, Option.bind_eq_some_iff.2 ⟨(), if_pos hafter.2, ?_⟩⟩
  refine Option.bind_eq_some_iff.2 ⟨lower, number?_ofAttribute hl, ?_⟩
  exact Option.bind_eq_some_iff.2 ⟨upper, number?_ofAttribute hu, rfl⟩

end Table

namespace Reply

/-- The reply is a success with these members. -/
def Shows (reply : Reply) (members : Members) : Prop :=
  ∃ body, reply = .answer 200 body ∧ Members.ofBody? body = some members

/-- The reply says an answer. -/
def Says (reply : Reply) : Table.Answer → Prop
  | .item found => ∃ members, reply.Shows members ∧
    (members.member? "Item").mapM WireItem.ofValue? = some found
  | .stored => ∃ members, reply.Shows members
  | .refused => ∃ status body, reply = .answer status body ∧ status ≠ 200 ∧ isConditionFailed body
  | .page items next => ∃ members, reply.Shows members ∧ members.page? = some (items, next.map ofKey)

variable {reply : Reply}

theorem Shows.success {members : Members} (h : reply.Shows members) (call : RemoteCall) :
    reply.success call = .ok members := by
  obtain ⟨body, rfl, hbody⟩ := h
  unfold Reply.success
  simp only [if_true, hbody]

theorem readItem_eq {found : Option WireItem} (h : reply.Says (.item found)) :
    reply.readItem = found.mapM toItem := by
  obtain ⟨members, hshows, hitem⟩ := h
  unfold readItem
  rw [hshows.success]
  cases hm : members.member? "Item" with
  | none =>
    rw [hm] at hitem
    obtain rfl := Option.some.inj hitem
    simp only [hm]
    rfl
  | some v =>
    rw [hm] at hitem
    obtain ⟨m, hv, rfl⟩ := Option.map_eq_some_iff.1 hitem
    simp only [hm, hv]
    rfl

theorem readWrite_eq_ok (h : reply.Says .stored) (w : Write) : reply.readWrite w = .ok () := by
  obtain ⟨members, hshows⟩ := h
  unfold readWrite
  cases w.guard with
  | none =>
    simp only [hshows.success]
    rfl
  | some c =>
    obtain ⟨body, rfl, -⟩ := id hshows
    simp only [ne_eq, not_true_eq_false, false_and, if_false, hshows.success]
    rfl

theorem readWrite_eq_guardFailed (h : reply.Says .refused) {w : Write} (hw : w.guard ≠ none) :
    reply.readWrite w = .error (.guardFailed w.item.key) := by
  obtain ⟨status, body, rfl, hstatus, hbody⟩ := h
  unfold readWrite
  obtain ⟨c, hc⟩ := Option.ne_none_iff_exists'.1 hw
  simp only [hc, if_pos (show status ≠ 200 ∧ isConditionFailed body = true from ⟨hstatus, hbody⟩)]

theorem readPage_eq {items : List WireItem} {next : Option Key} {is : List Item}
    (h : reply.Says (.page items next)) (hitems : items.mapM toItem = .ok is)
    (hnext : ∀ k ∈ next, Stamp.Fits k.sort) : reply.readPage = .ok { items := is, next } := by
  obtain ⟨members, hshows, hpage⟩ := h
  have hkey : (next.map ofKey).mapM toKey = .ok next := by
    cases next with
    | none => rfl
    | some k =>
      show (toKey (ofKey k)).map some = _
      rw [toKey_ofKey (hnext k rfl)]
      rfl
  unfold readPage
  rw [hshows.success]
  refine bind_eq_ok.2 ⟨members, rfl, ?_⟩
  rw [hpage]
  refine bind_eq_ok.2 ⟨is, hitems, bind_eq_ok.2 ⟨next, ?_, rfl⟩⟩
  rw [hkey]
  rfl

end Reply

/-! ## Keeping a table -/

/-- The service keeps the items `rows` of a table: it does what it is asked to and says so. -/
def Keeps {τ : Type} (serve : String → Value → StateM τ Reply) (rows : τ → OrderedMap Key WireItem)
    (table : String) : Prop :=
  ∀ target body r answer kept t, Request.read? target body = some r → r.table = table →
    Table.answer (rows t) r = some (answer, kept) →
    (serve target body t).1.Says answer ∧ rows (serve target body t).2 = kept

end Footage.Dynamo
