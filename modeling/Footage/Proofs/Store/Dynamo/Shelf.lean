import Footage.Proofs.Store.Dynamo.Table
import Footage.Proofs.Token

/-!
# A service that keeps a table

`shelf` is a service whose state is the table itself. It works out the answer to what it is asked and
writes it as a JSON body.
-/

namespace Footage.Dynamo

open Json Json.Value

theorem WireItem.whole_toValue (m : WireItem) : (WireItem.toValue m).Whole := by
  refine whole_record fun e he => ?_
  obtain ⟨⟨name, w⟩, -, rfl⟩ := List.mem_map.1 he
  cases w <;> exact ⟨trivial, trivial⟩

namespace Reply

/-- A body that is written as an object shows its members. -/
theorem ofBody?_text {members : List (String × Value)} (h : (record members).Whole) :
    Members.ofBody? (Text.bytes (record members).text) = some (members.map fun m => (some m.1, m.2)) := by
  have hne : (Text.bytes (record members).text).isEmpty = false := by
    rw [List.isEmpty_eq_false_iff]
    intro hnil
    have htext := Text.ofBytes?_bytes (record members).text
    rw [hnil] at htext
    have hempty : Text.ofBytes? [] = some "" := rfl
    have hchars : (record members).chars = [] := by
      rw [← String.toList_ofList (l := (record members).chars)]
      exact congrArg String.toList (Option.some.inj (htext.symm.trans hempty))
    cases members <;> exact absurd hchars (by simp [record, chars])
  unfold Members.ofBody?
  rw [hne, Text.symbolsOfBytes_bytes, ofSymbols?_text h]
  rfl

/-- A success with these members. -/
def ok (members : List (String × Value)) : Reply := .answer 200 (Text.bytes (record members).text)

theorem shows_ok {members : List (String × Value)} (h : ∀ m ∈ members, m.2.Whole) :
    (ok members).Shows (members.map fun m => (some m.1, m.2)) :=
  ⟨_, rfl, ofBody?_text (whole_record h)⟩

/-- The members of an error that refuses a write. -/
def refusal : List (String × Value) :=
  [("__type", str ("com.amazonaws.dynamodb.v20120810" ++ ("#" ++ conditionFailedType)))]

/-- The members of a page. -/
def pageMembers (items : List WireItem) (next : Option Key) : List (String × Value) :=
  ("Items", array (items.map (·.toValue))) ::
    (next.map fun k => ("LastEvaluatedKey", (ofKey k).toValue)).toList

/-- The reply that says an answer. -/
def ofAnswer : Table.Answer → Reply
  | .item found => ok (found.map fun m => ("Item", m.toValue)).toList
  | .stored => ok []
  | .refused => .answer 400 (Text.bytes (record refusal).text)
  | .page items next => ok (pageMembers items next)

theorem whole_pageMembers (items : List WireItem) (next : Option Key) :
    ∀ m ∈ pageMembers items next, m.2.Whole := by
  have hitems : (array (items.map (·.toValue))).Whole := whole_array fun v hv => by
    obtain ⟨m, -, rfl⟩ := List.mem_map.1 hv
    exact m.whole_toValue
  intro m hm
  rcases List.mem_cons.1 hm with rfl | hm
  · exact hitems
  · obtain ⟨k, -, rfl⟩ := Option.map_eq_some_iff.1 (Option.mem_toList.1 hm)
    exact (ofKey k).whole_toValue

theorem page?_pageMembers (items : List WireItem) (next : Option Key) :
    Members.page? ((pageMembers items next).map fun m => (some m.1, m.2)) =
      some (items, next.map ofKey) :=
  Members.page?_eq (by cases next <;> rfl) (by cases next <;> rfl)

theorem isConditionFailed_refusal : isConditionFailed (Text.bytes (record refusal).text) = true := by
  have htype : Members.member? (refusal.map fun m => (some m.1, m.2)) "__type" =
      some (string (some ("com.amazonaws.dynamodb.v20120810" ++ ("#" ++ conditionFailedType)))) := rfl
  unfold isConditionFailed
  rw [ofBody?_text (show (record refusal).Whole from ⟨trivial, trivial⟩), Option.bind_some, htype]
  simp only [Bool.or_eq_true, List.isSuffixOf_iff_suffix]
  exact .inr ⟨_, String.toList_append.symm⟩

theorem says_ofAnswer (answer : Table.Answer) : (ofAnswer answer).Says answer := by
  cases answer with
  | item found =>
    cases found with
    | none => exact ⟨_, shows_ok (fun _ h => absurd h List.not_mem_nil), rfl⟩
    | some m =>
      refine ⟨_, shows_ok fun _ h => ?_, ?_⟩
      · obtain rfl := List.mem_singleton.1 h
        exact m.whole_toValue
      · exact congrArg (Option.map some) (WireItem.ofValue?_toValue m)
  | stored => exact ⟨_, shows_ok (fun _ h => absurd h List.not_mem_nil)⟩
  | refused => exact ⟨400, _, rfl, by decide, isConditionFailed_refusal⟩
  | page items next =>
    exact ⟨_, shows_ok (whole_pageMembers items next), page?_pageMembers items next⟩

end Reply

/-- The service whose state is the table. What it does not understand it refuses. -/
def shelf (table : String) (target : String) (body : Value) : StateM (OrderedMap Key WireItem) Reply :=
  fun rows =>
    match (Request.read? target body).bind fun r => if r.table = table then Table.answer rows r else none with
    | some (answer, rows) => (Reply.ofAnswer answer, rows)
    | none => (.answer 400 [], rows)

theorem keeps_shelf (table : String) : Keeps (shelf table) id table := by
  intro target body r answer kept rows hr htable ha
  have hanswer : ((Request.read? target body).bind fun r =>
      if r.table = table then Table.answer rows r else none) = some (answer, kept) := by
    rw [hr, Option.bind_some, if_pos htable]
    exact ha
  unfold shelf
  rw [hanswer]
  exact ⟨Reply.says_ofAnswer answer, rfl⟩

end Footage.Dynamo
