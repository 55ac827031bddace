import Footage.Proofs.Alike
import Footage.Proofs.Store.Dynamo.Shelf
import Footage.Proofs.Store.Parts

/-!
# A remote table answers as the store in memory

Calls of a store that are worked on one after the other get the same answers from a remote table and from
memory, if the service keeps the table and both are empty at first.

1. What the table keeps mirrors what is in memory (`Mirrors`): each item as it is sent.
2. To each request that fits, the table has the answer of the store in memory, and mirrors it again
   (`Mirrors.get`, `Mirrors.write`, `Mirrors.read`).
3. So single calls end alike (`Keeps.alike_run`), and all of them do (`answers_eq_memory`).
-/

namespace Footage

/-! ## Calls -/

/-- A call of a store. -/
inductive Call
  | get (k : Key)
  | write (w : Write)
  | read (q : RangeRead)

namespace Call

inductive Answer
  | item (found : Option Item)
  | written
  | page (page : RangePage)
  deriving DecidableEq

def run {σ : Type} (b : Backend σ) : Call → StoreTask σ Answer
  | get k => do return .item (← b.get k)
  | write w => do
    b.write w
    return .written
  | read q => do return .page (← b.read q)

/-- The answers to calls that are made one after the other. -/
def answers {σ : Type} (b : Backend σ) : σ → List Call → List (Except StoreError Answer)
  | _, [] => []
  | s, c :: cs => (c.run b s).1 :: answers b (c.run b s).2 cs

theorem answers_eq {σ τ : Type} {R : σ → τ → Prop} {b : Backend σ} {b' : Backend τ} {cs : List Call}
    (h : ∀ c ∈ cs, Task.Alike R (c.run b) (c.run b')) {s : σ} {s' : τ} (hs : R s s') :
    answers b s cs = answers b' s' cs := by
  induction cs generalizing s s' with
  | nil => rfl
  | cons c cs ih =>
    obtain ⟨heq, hR⟩ := h c List.mem_cons_self s s' hs
    unfold answers
    rw [heq, ih (fun d hd => h d (List.mem_cons_of_mem _ hd)) hR]

end Call

namespace Memory

variable {q : RangeRead}

/-- Nothing is on the page of an empty range. -/
theorem page_of_lt (m : Memory) (hlt : q.upper < q.least) : m.page q = {} := by
  have hitems : (m.page q).items = [] := List.eq_nil_iff_forall_not_mem.2 fun i hi => by
    obtain ⟨-, hl, hu⟩ := (m.mem_page hi).2
    omega
  have hnext : (m.page q).next = none := Option.eq_none_iff_forall_not_mem.2 fun k hk => by
    obtain ⟨-, hl, hu⟩ := m.covers_of_mem_next hk
    omega
  show (⟨(m.page q).items, (m.page q).next⟩ : RangePage) = {}
  rw [hitems, hnext]

end Memory

namespace Dynamo

/-- A range read that stays within its partition and below the greatest number, with a limit that can be
stated. -/
structure Modest (q : RangeRead) : Prop where
  lower : Stamp.Fits q.lower
  least_le : Stamp.least ≤ q.upper
  lt_greatest : q.upper < Stamp.greatest
  after : ∀ k ∈ q.after, k.partition = q.partition ∧ Stamp.Fits k.sort
  limit : ∀ n ∈ q.limit, n ≤ Request.greatestLimit

instance : DecidablePred Modest := fun q =>
  decidable_of_iff (Stamp.Fits q.lower ∧ Stamp.least ≤ q.upper ∧ q.upper < Stamp.greatest ∧
      (∀ k ∈ q.after, k.partition = q.partition ∧ Stamp.Fits k.sort) ∧
      ∀ n ∈ q.limit, n ≤ Request.greatestLimit)
    ⟨fun h => ⟨h.1, h.2.1, h.2.2.1, h.2.2.2.1, h.2.2.2.2⟩,
      fun h => ⟨h.lower, h.least_le, h.lt_greatest, h.after, h.limit⟩⟩

/-- A key to resume after is in the range. -/
theorem Modest.fits_next {q : RangeRead} (hq : Modest q) (m : Memory) :
    ∀ k ∈ (m.page q).next, Stamp.Fits k.sort := by
  intro k hk
  obtain ⟨-, hl, hu⟩ := m.covers_of_mem_next hk
  have hle := q.lower_le_least
  have hlower := hq.lower.1
  have hlt := hq.lt_greatest
  exact ⟨by omega, by omega⟩

/-- The call can be sent without loss. -/
def Fits : Call → Prop
  | .get k => Stamp.Fits k.sort
  | .write w => Sendable w.item ∧ ∀ c ∈ w.guard, IsFree c.name ∧ c.value.Fits
  | .read q => Modest q

instance : DecidablePred Fits := fun
  | .get k => inferInstanceAs (Decidable (Stamp.Fits k.sort))
  | .write w =>
    inferInstanceAs (Decidable (Sendable w.item ∧ ∀ c ∈ w.guard, IsFree c.name ∧ c.value.Fits))
  | .read q => inferInstanceAs (Decidable (Modest q))

/-! ## The table and the memory -/

/-- What the table keeps is what is in memory, each item as it is sent. -/
structure Mirrors (kept : OrderedMap Key WireItem) (m : Memory) : Prop where
  kept_eq : kept = m.rows.mapWithKey fun k as => ofItem ⟨k, as⟩
  sendable : ∀ i ∈ m.items, Sendable i
  pageSize : m.pageSize = none
  faults : m.faults = {}

namespace Mirrors

variable {kept : OrderedMap Key WireItem} {m : Memory} {table : String}

theorem empty : Mirrors .empty {} := ⟨rfl, fun _ h => absurd h List.not_mem_nil, rfl, rfl⟩

theorem get?_eq (h : Mirrors kept m) (k : Key) : kept.get? k = (m.find? k).map ofItem := by
  rw [h.kept_eq, OrderedMap.get?_mapWithKey, Memory.find?, Option.map_map]
  rfl

theorem entries_eq (h : Mirrors kept m) : kept.entries = m.items.map fun i => (i.key, ofItem i) := by
  rw [h.kept_eq, Memory.items, List.map_map]
  rfl

theorem sendable_of_find? (h : Mirrors kept m) {k : Key} {i : Item} (hi : m.find? k = some i) :
    Sendable i := by
  obtain rfl := Memory.key_of_find? hi
  exact h.sendable i (Memory.mem_items.2 hi)

theorem store (h : Mirrors kept m) {i : Item} (hi : Sendable i) :
    Mirrors (kept.insert i.key (ofItem i)) (m.store i) where
  kept_eq := by
    rw [h.kept_eq]
    exact (OrderedMap.mapWithKey_insert _ _ _ _).symm
  sendable j hj := by
    have hj := Memory.mem_items.1 hj
    by_cases hk : j.key = i.key
    · rw [hk, Memory.find?_store_self] at hj
      exact Option.some.inj hj ▸ hi
    · rw [Memory.find?_store_of_ne m i hk] at hj
      exact h.sendable_of_find? hj
  pageSize := h.pageSize
  faults := h.faults

/-! ## Items -/

theorem get (h : Mirrors kept m) {k : Key} (hk : Stamp.Fits k.sort) :
    Table.answer kept (.ofKey table k) = some (.item ((m.find? k).map ofItem), kept) := by
  rw [← h.get?_eq]
  exact Table.answer_get (Table.key?_ofKey hk)

theorem mapM_toItem (h : Mirrors kept m) (k : Key) :
    ((m.find? k).map ofItem).mapM toItem = .ok (m.find? k) := by
  cases hi : m.find? k with
  | none => rfl
  | some i =>
    show (toItem (ofItem i)).map some = _
    rw [(h.sendable_of_find? hi).toItem_ofItem]
    rfl

/-! ## Writes -/

/-- The condition holds of the table as it does of the memory. -/
theorem differs_iff (h : Mirrors kept m) {c : Condition} (hc : IsFree c.name) (k : Key) :
    Table.Differs (kept.get? k) c.name c.value ↔ c.Holds (m.find? k) := by
  unfold Table.Differs Condition.Holds
  rw [h.get?_eq]
  cases hi : m.find? k with
  | none => simp
  | some i =>
    have hget : ((ofItem i).get? c.name).bind Wire.toAttribute? = i.attributes.get? c.name := by
      rw [get?_ofItem_of_free hc]
      cases ha : i.attributes.get? c.name with
      | none => rfl
      | some a => exact Wire.toAttribute?_ofAttribute ((h.sendable_of_find? hi).attributes _ a ha).2
    simp [hget]

theorem write (h : Mirrors kept m) {w : Write} (hi : Sendable w.item)
    (hg : ∀ c ∈ w.guard, IsFree c.name ∧ c.value.Fits) :
    Table.answer kept (.ofWrite table w) =
      some (if w.guard.all (·.Holds (m.find? w.item.key))
        then (.stored, kept.insert w.item.key (ofItem w.item)) else (.refused, kept)) := by
  unfold Request.ofWrite
  cases hw : w.guard with
  | none => exact Table.answer_put (Table.key?_ofItem hi)
  | some c =>
    obtain ⟨hfree, hfits⟩ := hg c hw
    have hall : (some c).all (·.Holds (m.find? w.item.key)) = true ↔ c.Holds (m.find? w.item.key) :=
      decide_eq_true_iff
    rw [Option.map_some, Table.answer_guarded (Table.key?_ofItem hi) (Wire.toAttribute?_ofAttribute hfits)]
    simp only [h.differs_iff hfree, hall]

/-! ## Pages -/

theorem between_eq (h : Mirrors kept m) {q : RangeRead} (hq : Modest q) :
    Table.between kept q.partition q.lower q.upper q.after =
      (m.matching q).map fun i => (i.key, ofItem i) := by
  unfold Table.between Memory.matching
  rw [h.entries_eq, List.filter_map]
  refine congrArg (List.map _) (List.filter_congr fun i _ => decide_eq_decide.2 ?_)
  have hlt := hq.lt_greatest
  unfold RangeRead.Covers RangeRead.least
  cases q.after with
  | none => simp
  | some k =>
    -- nothing is selected after the greatest number, where the least number stays behind
    simp only [Stamp.next, Stamp.later, Option.all_some, decide_eq_true_eq]
    refine and_congr_right fun _ => ?_
    omega

theorem pageLimit_eq (h : Mirrors kept m) {q : RangeRead} (hq : Modest q) :
    m.pageLimit q = q.limit.map fun n => min (max 1 n) Request.greatestLimit := by
  unfold Memory.pageLimit
  rw [h.pageSize]
  cases hl : q.limit with
  | none => rfl
  | some n =>
    have hn := hq.limit n hl
    have hle : max 1 n = min (max 1 n) Request.greatestLimit := by
      unfold Request.greatestLimit at hn ⊢
      omega
    exact congrArg some hle

theorem pageOf_eq (h : Mirrors kept m) {q : RangeRead} (hq : Modest q) :
    Table.pageOf (Table.between kept q.partition q.lower q.upper q.after) (m.pageLimit q) =
      .page ((m.page q).items.map ofItem) (m.page q).next := by
  unfold Table.pageOf Memory.page
  rw [h.between_eq hq]
  cases m.pageLimit q with
  | none =>
    simp only [List.map_map, reduceCtorEq, if_false]
    rfl
  | some n =>
    simp only [← List.map_take, List.map_map, List.length_map, List.getLast?_map, Option.map_map,
      Option.some.injEq, eq_comm (a := n)]
    rfl

theorem read (h : Mirrors kept m) {q : RangeRead} (hq : Modest q) :
    Table.answer kept (.ofRead table q) =
      some (.page ((m.page q).items.map ofItem) (m.page q).next, kept) := by
  have hupper : Stamp.Fits q.upper := ⟨hq.least_le, Int.le_of_lt hq.lt_greatest⟩
  unfold Request.ofRead
  rw [Table.answer_query hq.lower hupper hq.after, ← h.pageLimit_eq hq, h.pageOf_eq hq]

theorem mapM_page (h : Mirrors kept m) (q : RangeRead) :
    ((m.page q).items.map ofItem).mapM toItem = .ok (m.page q).items :=
  mapM_map_eq_pure fun i hi => (h.sendable i (m.mem_page hi).1).toItem_ofItem

end Mirrors

/-! ## Single calls -/

variable {τ : Type} {serve : String → Json.Value → StateM τ Reply} {rows : τ → OrderedMap Key WireItem}
  {table : String}

/-- The service, behind requests that are sent as the names of operations and JSON bodies. -/
def linkTo (serve : String → Json.Value → StateM τ Reply) : Link τ where
  send r := serve r.target r.body
  idle _ := 0

section Keeps

variable (h : Keeps serve rows table)
include h

/-- What the reader of a reply makes of it follows from the answer of the table. -/
theorem Keeps.alike_call {α : Type} {r : Request} {read : Reply → Except StoreError α}
    {t : StoreTask Memory α} (htable : r.table = table)
    (hanswer : ∀ kept m, Mirrors kept m → ∃ answer kept', Table.answer kept r = some (answer, kept') ∧
      (∀ reply : Reply, reply.Says answer → read reply = (t m).1) ∧ Mirrors kept' (t m).2) :
    Task.Alike (fun s m => Mirrors (rows s) m) (call (linkTo serve) r read) t := by
  intro s m hm
  obtain ⟨answer, kept', ha, hread, hm'⟩ := hanswer _ m hm
  obtain ⟨hsaid, hrows⟩ := h r.target r.body r answer kept' s r.read?_body htable ha
  refine ⟨hread _ hsaid, ?_⟩
  show Mirrors (rows (serve r.target r.body s).2) (t m).2
  rw [hrows]
  exact hm'

theorem Keeps.alike_get {k : Key} (hk : Stamp.Fits k.sort) :
    Task.Alike (fun s m => Mirrors (rows s) m) ((backend (linkTo serve) table).get k)
      (Memory.backend.get k) := by
  refine h.alike_call rfl fun kept m hm => ⟨_, _, hm.get hk, fun reply hsaid => ?_, ?_⟩
  · rw [Memory.get_eq hm.faults, Reply.readItem_eq hsaid]
    exact hm.mapM_toItem k
  · rw [Memory.get_eq hm.faults]
    exact hm

theorem Keeps.alike_write {w : Write} (hi : Sendable w.item)
    (hg : ∀ c ∈ w.guard, IsFree c.name ∧ c.value.Fits) :
    Task.Alike (fun s m => Mirrors (rows s) m) ((backend (linkTo serve) table).write w)
      (Memory.backend.write w) := by
  refine h.alike_call rfl fun kept m hm => ?_
  rw [hm.write hi hg]
  show ∃ answer kept', _ ∧ (∀ reply : Reply, reply.Says answer → reply.readWrite w = (Memory.write w m).1) ∧
    Mirrors kept' (Memory.write w m).2
  rw [Memory.write_eq hm.faults]
  by_cases hholds : w.guard.all (·.Holds (m.find? w.item.key)) = true
  · rw [if_pos hholds, if_pos hholds]
    exact ⟨_, _, rfl, fun reply hsaid => Reply.readWrite_eq_ok hsaid w, hm.store hi⟩
  · rw [if_neg hholds, if_neg hholds]
    refine ⟨_, _, rfl, fun reply hsaid => Reply.readWrite_eq_guardFailed hsaid fun hnone => ?_, hm⟩
    exact hholds (by rw [hnone]; rfl)

theorem Keeps.alike_read {q : RangeRead} (hq : Modest q) :
    Task.Alike (fun s m => Mirrors (rows s) m) ((backend (linkTo serve) table).read q)
      (Memory.backend.read q) := by
  have hmemory : ∀ {kept m}, Mirrors kept m →
      Memory.backend.read q m = (.ok (m.page q), { m with reads := m.reads + 1 }) := fun hm =>
    Memory.read_eq (Memory.readable_of_faults_eq hm.faults) q
  have hcounted : ∀ {kept m}, Mirrors kept m → Mirrors kept { m with reads := m.reads + 1 } := fun hm =>
    ⟨hm.kept_eq, hm.sendable, hm.pageSize, hm.faults⟩
  by_cases hlt : q.upper < q.least
  · have hempty : (backend (linkTo serve) table).read q = pure {} := if_pos hlt
    rw [hempty]
    intro s m hm
    rw [hmemory hm, m.page_of_lt hlt]
    exact ⟨rfl, hcounted hm⟩
  · have hcall : (backend (linkTo serve) table).read q =
        call (linkTo serve) (.ofRead table q) Reply.readPage := if_neg hlt
    rw [hcall]
    refine h.alike_call rfl fun kept m hm => ⟨_, _, hm.read hq, fun reply hsaid => ?_, ?_⟩
    · rw [hmemory hm, Reply.readPage_eq hsaid (hm.mapM_page q) (hq.fits_next m)]
    · rw [hmemory hm]
      exact hcounted hm

/-- A call that fits ends alike on the table and in memory. -/
theorem Keeps.alike_run {c : Call} (hc : Fits c) :
    Task.Alike (fun s m => Mirrors (rows s) m) (c.run (backend (linkTo serve) table))
      (c.run Memory.backend) := by
  cases c with
  | get k => exact (h.alike_get hc).bind fun _ => .pure _
  | write w => exact (h.alike_write hc.1 hc.2).bind fun _ => .pure _
  | read q => exact (h.alike_read hc).bind fun _ => .pure _

/-- A remote table that is empty at first gives the answers of an empty store in memory, to any calls
that can be sent without loss. -/
theorem answers_eq_memory {t : τ} (hempty : rows t = .empty) {cs : List Call} (hcs : ∀ c ∈ cs, Fits c) :
    Call.answers (backend (linkTo serve) table) t cs = Call.answers Memory.backend {} cs :=
  Call.answers_eq (fun c hc => h.alike_run (hcs c hc)) (hempty ▸ Mirrors.empty)

end Keeps

/-- A record in the cloud, and one for the device that comes too late for the same time. -/
def lateCalls : List Call :=
  let k : Key := ⟨"raw#cam", -7⟩
  [.write { item := (Item.bare k).set "location" (.text "CLOUD") },
    .write { item := (Item.bare k).set "location" (.text "DEVICE"),
             guard := some ⟨"location", .text "CLOUD"⟩ },
    .read { partition := "raw#cam", lower := -10, upper := 10, limit := some 1 },
    .read { partition := "raw#cam", lower := -10, upper := 10, after := some k, limit := some 1 }]

theorem answers_eq_memory_late :
    (∀ c ∈ lateCalls, Fits c) ∧
      Call.answers (backend (linkTo (shelf "fragments")) "fragments") .empty lateCalls =
        [.ok .written, .error (.guardFailed ⟨"raw#cam", -7⟩),
          .ok (.page { items := [(Item.bare ⟨"raw#cam", -7⟩).set "location" (.text "CLOUD")],
                       next := some ⟨"raw#cam", -7⟩ }), .ok (.page {})] := by
  have hfits : ∀ c ∈ lateCalls, Fits c := by decide
  exact ⟨hfits, (answers_eq_memory (keeps_shelf "fragments") rfl hfits).trans (by decide)⟩

end Dynamo

end Footage
