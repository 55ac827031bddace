import Footage.Proofs.Store.Dynamo.Shelf

/-!
# What was sent is sent back

The items and keys of requests come back in replies as they were sent, member for member.

1. A request to store an item has it as a member (`member?_ofWrite`), and one for the rest of a range has the
   key to resume after (`member?_ofRead`).
2. A reply with these members is read as the item, or as the page with the key (`readItem_of_member`,
   `readPage_of_members`).

Together with what any other map is read as, this is what the mapping of items promises (`maps_faithful`).
-/

namespace Footage.Dynamo

open Json Json.Value

namespace Request

/-- A member of the details of a request. -/
def member? (r : Request) (name : String) : Option Value :=
  match r.body with
  | object members => Members.member? members name
  | _ => none

theorem member?_ofWrite (table : String) (w : Write) :
    (ofWrite table w).member? "Item" = some (ofItem w.item).toValue := by
  obtain ⟨item, condition⟩ := w
  cases condition <;> rfl

theorem member?_ofRead (table : String) (q : RangeRead) :
    (ofRead table q).member? "ExclusiveStartKey" = q.after.map fun k => (Dynamo.ofKey k).toValue := by
  obtain ⟨partition, lower, upper, after, limit⟩ := q
  cases after <;> cases limit <;> rfl

end Request

namespace Reply

variable {reply : Reply} {members : Members}

theorem readItem_of_member {i : Item} (hi : Sendable i) (hshows : reply.Shows members)
    (hitem : members.member? "Item" = some (ofItem i).toValue) : reply.readItem = .ok (some i) := by
  have hsays : reply.Says (.item (some (ofItem i))) := by
    refine ⟨members, hshows, ?_⟩
    rw [hitem]
    exact congrArg (Option.map some) (WireItem.ofValue?_toValue (ofItem i))
  rw [readItem_eq hsays]
  show (toItem (ofItem i)).map some = _
  rw [hi.toItem_ofItem]
  rfl

theorem readPage_of_members {is : List Item} {next : Option Key} (his : ∀ i ∈ is, Sendable i)
    (hnext : ∀ k ∈ next, Stamp.Fits k.sort) (hshows : reply.Shows members)
    (hitems : members.member? "Items" = some (array (is.map fun i => (ofItem i).toValue)))
    (hkey : members.member? "LastEvaluatedKey" = next.map fun k => (ofKey k).toValue) :
    reply.readPage = .ok { items := is, next } := by
  have hsays : reply.Says (.page (is.map ofItem) next) := by
    refine ⟨members, hshows, Members.page?_eq ?_ hkey⟩
    rw [List.map_map]
    exact hitems
  exact readPage_eq hsays (mapM_map_eq_pure fun i hi => (his i hi).toItem_ofItem) hnext

end Reply

/-- **Items and keys travel without loss, and nothing is dropped.** What is sent comes back as it was, and what
comes back is read in full or refused for what is wrong with it. -/
theorem maps_faithful :
    (∀ i, Sendable i → toItem (ofItem i) = .ok i ∧
      ∀ es, es.Perm (ofItem i).entries → addAttributes (.bare i.key) es = .ok i) ∧
    (∀ k, Stamp.Fits k.sort → toKey (ofKey k) = .ok k) ∧
    (∀ table (w : Write) (reply : Reply) (members : Members), Sendable w.item → reply.Shows members →
      members.member? "Item" = (Request.ofWrite table w).member? "Item" →
      reply.readItem = .ok (some w.item)) ∧
    (∀ table (ws : List Write) (q : RangeRead) (reply : Reply) (members : Members) (sent : List Value),
      (∀ w ∈ ws, Sendable w.item) → (∀ k ∈ q.after, Stamp.Fits k.sort) → reply.Shows members →
      ws.mapM (fun w => (Request.ofWrite table w).member? "Item") = some sent →
      members.member? "Items" = some (array sent) →
      members.member? "LastEvaluatedKey" = (Request.ofRead table q).member? "ExclusiveStartKey" →
      reply.readPage = .ok { items := ws.map (·.item), next := q.after }) ∧
    (∀ m, match toKey m with
      | .ok k => HasKey m k
      | .error fault => KeyFault m fault) ∧
    ∀ m, Decodes m (toItem m) ∧
      ∀ k es, HasKey m k → es.Perm m.entries → Decodes m (addAttributes (.bare k) es) := by
  refine ⟨fun i hi => ⟨hi.toItem_ofItem, fun es hes => ?_⟩, fun k => toKey_ofKey,
    fun table w reply members hw hshows hitem => ?_,
    fun table ws q reply members sent hws hafter hshows hsent hitems hkey => ?_, fun m => ?_,
    fun m => ⟨decodes_toItem m, fun k es hk hes => decodes_addAttributes hk hes⟩⟩
  · exact hi.decodes_ofItem.eq_ok (decodes_addAttributes hi.hasKey_ofItem hes)
  · rw [Request.member?_ofWrite] at hitem
    exact Reply.readItem_of_member hw hshows hitem
  · simp only [Request.member?_ofWrite] at hsent
    obtain rfl := Option.some.inj ((List.mapM_pure (m := Option)).symm.trans hsent)
    rw [Request.member?_ofRead] at hkey
    refine Reply.readPage_of_members (fun i hi => ?_) hafter hshows ?_ hkey
    · obtain ⟨w, hw, rfl⟩ := List.mem_map.1 hi
      exact hws w hw
    · rw [List.map_map]
      exact hitems
  · split
    · next k hk => exact toKey_eq_ok_iff.1 hk
    · next fault hfault => exact keyFault_of_toKey hfault

/-- An item whose numbers are the ends of their range, in a partition that holds separators. -/
def outermost : Item :=
  (Item.bare ⟨"raw#κάμερα#", Stamp.least⟩).set "count" (.number Stamp.greatest) |>.set "πηγή" (.text "")

/-- A row whose sort number is written with a sign and an attribute of which is no whole number. -/
def fractional : WireItem :=
  ofKey ⟨"camera#SECONDS", 0⟩ |>.insert sortName (.number "+07") |>.insert "mean" (.number "5.0")

/-- The outermost item and its key come back, on their own and in a page; the fractional row is read as none. -/
theorem maps_faithful_outermost :
    toItem (ofItem outermost) = .ok outermost ∧ toKey (ofKey outermost.key) = .ok outermost.key ∧
    (Reply.ok [("Item", (ofItem outermost).toValue)]).readItem = .ok (some outermost) ∧
    (Reply.ok (Reply.pageMembers [ofItem outermost] (some outermost.key))).readPage =
      .ok { items := [outermost], next := some outermost.key } ∧
    HasKey fractional ⟨"camera#SECONDS", 7⟩ ∧
    Decodes fractional (.error (.item (.invalid ⟨"camera#SECONDS", 7⟩ "mean"))) := by
  have hsend : Sendable outermost := by decide
  have hfits : Stamp.Fits outermost.key.sort := hsend.sort
  obtain ⟨items, keys, found, page, row, rows⟩ := maps_faithful
  refine ⟨(items _ hsend).1, keys _ hfits, ?_, ?_, row fractional, (rows fractional).1⟩
  · exact found "fragments" { item := outermost } _ _ hsend
      (Reply.shows_ok fun m hm => List.mem_singleton.1 hm ▸ (ofItem outermost).whole_toValue) rfl
  · exact page "fragments" [{ item := outermost }]
      { partition := "raw#κάμερα#", lower := 0, upper := 0, after := some outermost.key, limit := none } _ _ _
      (by simpa using hsend) (by simpa using hfits) (Reply.shows_ok (Reply.whole_pageMembers _ _)) rfl rfl rfl

end Footage.Dynamo
