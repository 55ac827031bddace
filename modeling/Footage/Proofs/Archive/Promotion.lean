import Footage.Proofs.Archive.Save

/-!
# Promotion survives stale reads

A save reads the record and later does at most one write, which rests on what was read. In between, other
saves may have replaced the record.

1. A save is its first part and then its write, if there is one (`save_eq_prepare`).
2. `Traffic` is a store with any number of saves under way. In a turn one of them does its next call.
3. A turn leaves the items, or stores a record that says what the report of its save says. One for the
   device is stored only if the item that it replaces is not in the cloud: the guard is checked together
   with the write (`step_next`).
4. So an item in the cloud stays there (`Step.inCloud`), and once a save for the cloud was accepted or
   another write was done, the record says what some save for the cloud said (`Step.settled`).
-/

namespace Footage

/-- The item of a fragment has the location of the cloud, whatever else it has. -/
def Memory.InCloud (m : Memory) (device : String) (timestamp : Int) : Prop :=
  ∃ i, m.find? ⟨Fragment.partition device, timestamp⟩ = some i ∧
    i.attributes.get? Fragment.locationName = some (.text Location.cloud.name)

namespace Memory

variable {m m' : Memory} {device : String} {timestamp : Int}

theorem InCloud.congr (h : m.InCloud device timestamp) (hrows : m'.rows = m.rows) :
    m'.InCloud device timestamp := by
  unfold InCloud
  rw [find?_congr hrows]
  exact h

/-- The guard of a write for the device holds where the item is not in the cloud. -/
theorem notInCloud_holds_iff : Fragment.notInCloud.Holds
    (m.find? ⟨Fragment.partition device, timestamp⟩) ↔ ¬ m.InCloud device timestamp := by
  unfold Condition.Holds InCloud
  constructor
  · rintro h ⟨i, hi, hl⟩
    exact h i hi hl
  · exact fun h i hi hl => h ⟨i, hi, hl⟩

theorem inCloud_of_record {f : Fragment} (h : m.record device timestamp = .ok (some f))
    (hf : f.location = .cloud) : m.InCloud device timestamp := by
  obtain ⟨i, hi, ho⟩ := find?_of_entry_eq_some h
  obtain ⟨-, -, hl⟩ := Fragment.parts_of_ofItem ho
  rw [hf] at hl
  exact ⟨i, hi, hl⟩

theorem inCloud_store_of_ne (f : Fragment) (h : ¬ (f.device = device ∧ f.timestamp = timestamp))
    (hin : m.InCloud device timestamp) : (m.store f.item).InCloud device timestamp := by
  unfold InCloud
  rw [find?_store_of_ne]
  · exact hin
  · intro hk
    rw [Fragment.key_item, Fragment.key, Key.mk.injEq, Fragment.partition_inj] at hk
    exact h ⟨hk.1.symm, hk.2.symm⟩

end Memory

namespace Archive

open Desk

variable {σ : Type}

/-- A report of a fragment, with the settings of the archive that takes it. -/
structure Report where
  device : String
  timestamp : Int
  duration : Nat
  location : Location
  paging : Paging := {}

/-- The record says what the report says. -/
def Report.Tells (r : Report) (f : Fragment) : Prop :=
  f.device = r.device ∧ f.timestamp = r.timestamp ∧ f.Says r.duration r.location

/-- The first part of a save: what is to be written after what was read, if anything. -/
def prepare (b : Backend σ) (r : Report) : DeskTask σ (Option Write) := do
  let old ← load b r.device r.timestamp
  if old.any (·.Says r.duration r.location) then
    return none
  else
    let now ← readClock
    let f := revise r.paging r.device r.timestamp r.duration r.location old now
    return some (← check .request f.toWrite)

/-- A save is its first part and then its write. -/
theorem save_eq_prepare (b : Backend σ) (r : Report) :
    save b r.paging r.device r.timestamp r.duration r.location = (do
      match ← prepare b r with
      | some w => onStore (attempt b w)
      | none => return ()) := by
  funext desk
  unfold save prepare
  simp only [Task.bind_apply]
  rcases load b r.device r.timestamp desk with ⟨_ | old, desk'⟩
  · rfl
  · by_cases hs : old.any (·.Says r.duration r.location)
    · simp only [hs, if_true]
      rfl
    · simp only [hs, Bool.false_eq_true, if_false, Task.bind_apply, readClock]
      cases (revise r.paging r.device r.timestamp r.duration r.location old desk'.clock.now).toWrite <;> rfl

/-! ## Saves under way -/

/-- How far a save has got. -/
inductive Phase
  | waiting
  /-- It has read the record and has something to write. -/
  | writing (w : Write)
  | ended (answer : Except Failure Unit)

/-- The phase after the first part of a save. -/
def Phase.prepared : Except Failure (Option Write) → Phase
  | .ok (some w) => writing w
  | .ok none => ended (.ok ())
  | .error f => ended (.error f)

/-- A store and the saves under way on it, by their numbers. -/
structure Traffic where
  store : Memory
  phases : Nat → Phase := fun _ => .waiting

/-- The turn of a save: the clock as it stands then, and the calls that the store fails. -/
structure Turn where
  save : Nat
  clock : Clock
  faults : Faults := {}

namespace Traffic

/-- The desk at which a save does its call. -/
def desk (t : Traffic) (turn : Turn) : Desk Memory := ⟨{ t.store with faults := turn.faults }, turn.clock⟩

/-- The traffic after a save has moved on. -/
def move (t : Traffic) (i : Nat) (phase : Phase) (store : Memory) : Traffic :=
  ⟨store, fun j => if j = i then phase else t.phases j⟩

@[simp] theorem store_move (t : Traffic) (i : Nat) (phase : Phase) (store : Memory) :
    (t.move i phase store).store = store := rfl

@[simp] theorem phases_move_self (t : Traffic) (i : Nat) (phase : Phase) (store : Memory) :
    (t.move i phase store).phases i = phase := if_pos rfl

theorem phases_move_of_ne (t : Traffic) {i j : Nat} (h : j ≠ i) (phase : Phase) (store : Memory) :
    (t.move i phase store).phases j = t.phases j := if_neg h

/-- The traffic after a turn: the save reads, or writes, or has ended already. -/
def next (reports : Nat → Report) (t : Traffic) (turn : Turn) : Traffic :=
  match t.phases turn.save with
  | .waiting =>
    let outcome := prepare Memory.backend (reports turn.save) (t.desk turn)
    t.move turn.save (.prepared outcome.1) outcome.2.store
  | .writing w =>
    let outcome := onStore (attempt Memory.backend w) (t.desk turn)
    t.move turn.save (.ended outcome.1) outcome.2.store
  | .ended _ => t

/-- The traffic after some turns. -/
def run (reports : Nat → Report) (t : Traffic) (turns : List Turn) : Traffic :=
  turns.foldl (next reports) t

/-- In this turn the record of a fragment is written. -/
def Writes (t : Traffic) (turn : Turn) (device : String) (timestamp : Int) : Prop :=
  ∃ w, t.phases turn.save = .writing w ∧ w.item.key = ⟨Fragment.partition device, timestamp⟩ ∧
    (Memory.backend.write w (t.desk turn).store).1 = .ok ()

/-- A save that says of a fragment that it is in the cloud was accepted. -/
def Promoted (reports : Nat → Report) (t : Traffic) (device : String) (timestamp : Int) : Prop :=
  ∃ i, (reports i).device = device ∧ (reports i).timestamp = timestamp ∧ (reports i).location = .cloud ∧
    t.phases i = .ended (.ok ())

/-- The record says what an accepted save for the cloud said. -/
def Settled (reports : Nat → Report) (t : Traffic) (device : String) (timestamp : Int) : Prop :=
  ∃ i f, (reports i).device = device ∧ (reports i).timestamp = timestamp ∧ (reports i).location = .cloud ∧
    t.phases i = .ended (.ok ()) ∧ t.store.record device timestamp = .ok (some f) ∧
    f.Says (reports i).duration .cloud

end Traffic

/-! ## A call of a save -/

/-- The first part of a save changes no item. It finds that the record says so already, or prepares a
write of what the report says. -/
theorem prepare_ends (r : Report) (desk : Desk Memory) :
    Task.Ends (fun d : Desk Memory => d.store = desk.store) (fun _ => True)
      (fun
        | none => ∃ f, desk.store.record r.device r.timestamp = .ok (some f) ∧ f.Says r.duration r.location
        | some w => ∃ f, r.Tells f ∧ w = writeOf f) (prepare Memory.backend r desk) := by
  unfold prepare
  refine Task.Ends.bind (Q := fun old => desk.store.record r.device r.timestamp = .ok old) ?_ ?_
  · rw [load_eq]
    by_cases hg : desk.store.faults.get
    · rw [if_pos hg]
      exact ⟨rfl, trivial⟩
    · rw [if_neg hg]
      cases desk.store.record r.device r.timestamp with
      | error e => exact ⟨rfl, trivial⟩
      | ok old => exact ⟨rfl, rfl⟩
  · intro old d hd hold
    by_cases hs : old.any (·.Says r.duration r.location)
    · simp only [hs, if_true]
      obtain ⟨f, hf, hsays⟩ := (Option.any_eq_true _ _).1 hs
      obtain rfl := hf
      exact Task.Ends.pure hd ⟨f, hold, of_decide_eq_true hsays⟩
    · simp only [hs, Bool.false_eq_true, if_false]
      refine Task.Ends.bind (Q := fun _ => True) ⟨hd, trivial⟩ fun now d' hd' _ => ?_
      cases hw : (revise r.paging r.device r.timestamp r.duration r.location old now).toWrite with
      | error e => exact ⟨hd', trivial⟩
      | ok w => exact Task.Ends.pure hd' ⟨_, ⟨rfl, rfl, rfl, rfl⟩, eq_writeOf_of_toWrite hw⟩

/-- A write that is done stores its item, and its guard holds there and then. -/
theorem attempt_of_write_eq_ok {w : Write} {m : Memory} (h : (Memory.backend.write w m).1 = .ok ()) :
    attempt Memory.backend w m = (.ok (), m.store w.item) ∧
      ∀ c ∈ w.guard, c.Holds (m.find? w.item.key) := by
  have hwrite : Memory.backend.write w m = Memory.write w m := rfl
  unfold attempt
  rw [hwrite] at h ⊢
  unfold Memory.write at h ⊢
  by_cases hp : m.faults.put
  · rw [if_pos hp] at h
    exact absurd h (by simp)
  · rw [if_neg hp] at h ⊢
    by_cases hg : w.guard.all (·.Holds (m.find? w.item.key))
    · rw [if_pos hg]
      refine ⟨by cases w.guard <;> rfl, fun c hc => ?_⟩
      exact of_decide_eq_true ((Option.all_eq_true _ _).1 hg c hc)
    · rw [if_neg hg] at h
      exact absurd h (by simp)

/-- A write that is not done changes nothing, and the save has an error unless the guard refused it. -/
theorem attempt_of_write_ne_ok {w : Write} {m : Memory} (h : (Memory.backend.write w m).1 ≠ .ok ()) :
    (attempt Memory.backend w m).2 = m ∧ ((attempt Memory.backend w m).1 = .ok () → w.guard ≠ none) := by
  have hwrite : Memory.backend.write w m = Memory.write w m := rfl
  unfold attempt
  rw [hwrite] at h ⊢
  unfold Memory.write at h ⊢
  by_cases hp : m.faults.put
  · rw [if_pos hp]
    cases w.guard <;> simp
  · rw [if_neg hp] at h ⊢
    by_cases hg : w.guard.all (·.Holds (m.find? w.item.key))
    · rw [if_pos hg] at h
      exact absurd rfl h
    · rw [if_neg hg]
      cases hw : w.guard with
      | none => exact absurd (by rw [hw]; rfl) hg
      | some c => simp

namespace Traffic

variable {reports : Nat → Report} {t t' : Traffic} {turn : Turn} {device : String} {timestamp : Int}

/-- What a turn does: the save leaves the items, or stores a record that says what its report says. -/
inductive Step (reports : Nat → Report) (t : Traffic) (turn : Turn) : Traffic → Prop
  | idle {answer : Except Failure Unit} (finished : t.phases turn.save = .ended answer) :
      Step reports t turn t
  | kept {store : Memory} {phase : Phase} (busy : ∀ answer, t.phases turn.save ≠ .ended answer)
      (same : store.rows = t.store.rows)
      (prepared : ∀ w, phase = .writing w → ∃ f, (reports turn.save).Tells f ∧ w = writeOf f)
      (answered : phase = .ended (.ok ()) → (reports turn.save).location = .cloud →
        ∃ f, t.store.record (reports turn.save).device (reports turn.save).timestamp = .ok (some f) ∧
          f.Says (reports turn.save).duration .cloud) :
      Step reports t turn (t.move turn.save phase store)
  | stored {store : Memory} {f : Fragment} (tells : (reports turn.save).Tells f)
      (rows : store.rows = (t.store.store f.item).rows)
      (guarded : f.location = .device → ¬ t.store.InCloud f.device f.timestamp) :
      Step reports t turn (t.move turn.save (.ended (.ok ())) store)

/-- What is still to be written is what the reports say, and an accepted save for the cloud has left its
mark. -/
structure Honest (reports : Nat → Report) (t : Traffic) : Prop where
  prepared : ∀ i w, t.phases i = .writing w → ∃ f, (reports i).Tells f ∧ w = writeOf f
  settled : ∀ device timestamp, t.Promoted reports device timestamp → t.Settled reports device timestamp

/-- A turn in which a write is done. -/
theorem stored_of_write (reports : Nat → Report) {f : Fragment}
    (hphase : t.phases turn.save = .writing (writeOf f))
    (hok : (Memory.backend.write (writeOf f) (t.desk turn).store).1 = .ok ()) :
    ∃ store, next reports t turn = t.move turn.save (.ended (.ok ())) store ∧
      store.rows = (t.store.store f.item).rows ∧
      (f.location = .device → ¬ t.store.InCloud f.device f.timestamp) := by
  obtain ⟨hattempt, hguard⟩ := attempt_of_write_eq_ok hok
  refine ⟨(t.desk turn).store.store f.item, ?_, rfl, fun hl => ?_⟩
  · unfold next
    rw [hphase]
    simp only [onStore, hattempt]
    rfl
  · have hc : Fragment.notInCloud ∈ (writeOf f).guard := by
      unfold writeOf
      rw [hl]
      rfl
    exact Memory.notInCloud_holds_iff.1 (hguard _ hc)

/-- The turn of a save that has not read yet. -/
theorem step_of_waiting (reports : Nat → Report) (hphase : t.phases turn.save = .waiting) :
    Step reports t turn (next reports t turn) := by
  obtain ⟨hstore, hends⟩ := prepare_ends (reports turn.save) (t.desk turn)
  have hrows : (prepare Memory.backend (reports turn.save) (t.desk turn)).2.store.rows = t.store.rows := by
    rw [hstore]
    rfl
  have hbusy : ∀ answer, t.phases turn.save ≠ .ended answer := fun _ h => by simp [hphase] at h
  unfold next
  rw [hphase]
  refine .kept hbusy hrows (fun w hw => ?_) fun hok hl => ?_
  · rcases ha : (prepare Memory.backend (reports turn.save) (t.desk turn)).1 with f | _ | w'
    all_goals rw [ha] at hw hends
    · exact absurd hw (by simp [Phase.prepared])
    · exact absurd hw (by simp [Phase.prepared])
    · obtain rfl := Phase.writing.inj hw
      exact hends
  · rcases ha : (prepare Memory.backend (reports turn.save) (t.desk turn)).1 with f | _ | w'
    all_goals rw [ha] at hok hends
    · exact absurd hok (by simp [Phase.prepared])
    · obtain ⟨f, hf, hsays⟩ := hends
      exact ⟨f, hf, hl ▸ hsays⟩
    · exact absurd hok (by simp [Phase.prepared])

/-- The turn of a save that has something to write. -/
theorem step_of_writing {f : Fragment} (htells : (reports turn.save).Tells f)
    (hphase : t.phases turn.save = .writing (writeOf f)) : Step reports t turn (next reports t turn) := by
  by_cases hok : (Memory.backend.write (writeOf f) (t.desk turn).store).1 = .ok ()
  · obtain ⟨store, hnext, hrows, hguarded⟩ := stored_of_write reports hphase hok
    rw [hnext]
    exact .stored htells hrows hguarded
  · obtain ⟨hstore, hrefused⟩ := attempt_of_write_ne_ok hok
    have hbusy : ∀ answer, t.phases turn.save ≠ .ended answer := fun _ h => by simp [hphase] at h
    unfold next
    rw [hphase]
    rcases ha : attempt Memory.backend (writeOf f) (t.desk turn).store with ⟨answer, store⟩
    rw [ha] at hstore hrefused
    obtain rfl : store = (t.desk turn).store := hstore
    simp only [onStore, ha]
    rcases answer with e | _
    · exact .kept hbusy rfl (fun w hw => by simp at hw) fun h => by simp at h
    · refine .kept hbusy rfl (fun w hw => by simp at hw) fun _ hl => ?_
      have hcloud : f.location = .cloud := htells.2.2.2.trans hl
      -- a write for the cloud has no guard that could have refused it
      exact absurd (by unfold writeOf; rw [hcloud]; rfl) (hrefused rfl)

theorem step_next (h : t.Honest reports) (turn : Turn) : Step reports t turn (next reports t turn) := by
  cases hphase : t.phases turn.save with
  | waiting => exact step_of_waiting reports hphase
  | writing w =>
    obtain ⟨f, htells, rfl⟩ := h.prepared _ _ hphase
    exact step_of_writing htells hphase
  | ended answer =>
    have hnext : next reports t turn = t := by
      unfold next
      rw [hphase]
    rw [hnext]
    exact .idle hphase

/-- An item in the cloud stays there. -/
theorem Step.inCloud (h : Step reports t turn t') (hin : t.store.InCloud device timestamp) :
    t'.store.InCloud device timestamp := by
  cases h with
  | idle finished => exact hin
  | kept busy same prepared answered => exact hin.congr same
  | @stored store f tells rows guarded =>
    refine Memory.InCloud.congr ?_ rows
    by_cases hk : f.device = device ∧ f.timestamp = timestamp
    · obtain ⟨rfl, rfl⟩ := hk
      have hl : f.location = .cloud := by
        cases hl : f.location with
        | device => exact absurd hin (guarded hl)
        | cloud => rfl
      exact Memory.inCloud_of_record (Memory.record_store_item _ f) hl
    · exact Memory.inCloud_store_of_ne f hk hin

/-- A record of the cloud that is stored is settled. -/
theorem settled_of_stored {store : Memory} {f : Fragment} (tells : (reports turn.save).Tells f)
    (rows : store.rows = (t.store.store f.item).rows) (hl : f.location = .cloud) :
    Settled reports (t.move turn.save (.ended (.ok ())) store) f.device f.timestamp := by
  obtain ⟨hd, hts, hdur, hloc⟩ := tells
  refine ⟨turn.save, f, hd.symm, hts.symm, hloc.symm.trans hl, phases_move_self _ _ _ _, ?_, hdur, hl⟩
  rw [store_move, Memory.record, Memory.entry_congr rows]
  exact Memory.record_store_item _ f

/-- A settled record stays settled. -/
theorem Step.settled (h : Step reports t turn t') (hset : t.Settled reports device timestamp) :
    t'.Settled reports device timestamp := by
  obtain ⟨i, f, hd, hts, hl, hphase, hrec, hsays⟩ := id hset
  cases h with
  | idle finished => exact hset
  | kept busy same prepared answered =>
    have hi : i ≠ turn.save := fun hi => busy _ (hi ▸ hphase)
    exact ⟨i, f, hd, hts, hl, (phases_move_of_ne _ hi _ _).trans hphase,
      (Memory.entry_congr same _).trans hrec, hsays⟩
  | @stored store g tells rows guarded =>
    by_cases hk : g.device = device ∧ g.timestamp = timestamp
    · obtain ⟨rfl, rfl⟩ := hk
      refine settled_of_stored tells rows ?_
      cases hgl : g.location with
      | device => exact absurd (Memory.inCloud_of_record hrec hsays.2) (guarded hgl)
      | cloud => rfl
    · have hi : i ≠ turn.save := by
        rintro rfl
        exact hk ⟨tells.1.trans hd, tells.2.1.trans hts⟩
      refine ⟨i, f, hd, hts, hl, (phases_move_of_ne _ hi _ _).trans hphase, ?_, hsays⟩
      rw [store_move, Memory.record, Memory.entry_congr rows]
      exact (Memory.record_store_of_ne _ g hk).trans hrec

/-- A save that was not accepted before a turn and is after it did its call in the turn. -/
theorem eq_of_move {i : Nat} {phase : Phase} {store : Memory} (hold : t.phases i ≠ .ended (.ok ()))
    (h : (t.move turn.save phase store).phases i = .ended (.ok ())) :
    i = turn.save ∧ phase = .ended (.ok ()) := by
  by_cases hi : i = turn.save
  · subst hi
    rw [phases_move_self] at h
    exact ⟨rfl, h⟩
  · rw [phases_move_of_ne _ hi] at h
    exact absurd h hold

theorem Honest.step (h : t.Honest reports) (hs : Step reports t turn t') : t'.Honest reports where
  prepared := by
    intro i w hw
    by_cases hi : i = turn.save
    · subst hi
      cases hs with
      | idle finished => exact h.prepared _ w hw
      | kept busy same prepared answered => exact prepared w ((phases_move_self _ _ _ _).symm.trans hw)
      | stored tells rows guarded => exact absurd ((phases_move_self _ _ _ _).symm.trans hw) (by simp)
    · cases hs with
      | idle finished => exact h.prepared i w hw
      | kept | stored => exact h.prepared i w ((phases_move_of_ne _ hi _ _).symm.trans hw)
  settled := by
    rintro device timestamp ⟨i, hd, hts, hl, hphase⟩
    by_cases hold : t.phases i = .ended (.ok ())
    · exact hs.settled (h.settled device timestamp ⟨i, hd, hts, hl, hold⟩)
    · cases hs with
      | idle finished => exact absurd hphase hold
      | kept busy same prepared answered =>
        obtain ⟨rfl, rfl⟩ := eq_of_move hold hphase
        obtain ⟨f, hrec, hsays⟩ := answered rfl hl
        rw [hd, hts] at hrec
        exact ⟨_, f, hd, hts, hl, phases_move_self _ _ _ _, (Memory.entry_congr same _).trans hrec, hsays⟩
      | @stored store f tells rows guarded =>
        obtain ⟨rfl, -⟩ := eq_of_move hold hphase
        rw [← hd, ← hts, ← tells.1, ← tells.2.1]
        exact settled_of_stored tells rows (tells.2.2.2.trans hl)

/-- The first write over an item in the cloud settles its record. -/
theorem settled_of_writes (h : t.Honest reports) (hin : t.store.InCloud device timestamp)
    (hw : t.Writes turn device timestamp) : (next reports t turn).Settled reports device timestamp := by
  obtain ⟨w, hphase, hk, hok⟩ := hw
  obtain ⟨f, htells, rfl⟩ := h.prepared _ _ hphase
  obtain ⟨store, hnext, hrows, hguarded⟩ := stored_of_write reports hphase hok
  have hkey : f.key = ⟨Fragment.partition device, timestamp⟩ := hk
  rw [Fragment.key, Key.mk.injEq, Fragment.partition_inj] at hkey
  obtain ⟨rfl, rfl⟩ := hkey
  rw [hnext]
  refine settled_of_stored htells hrows ?_
  cases hl : f.location with
  | device => exact absurd hin (hguarded hl)
  | cloud => rfl

/-! ## Any turns -/

theorem honest_start (reports : Nat → Report) (m : Memory) : Honest reports ⟨m, fun _ => .waiting⟩ where
  prepared _ _ h := by simp at h
  settled := by
    rintro device timestamp ⟨i, -, -, -, h⟩
    simp at h

/-- What is kept by every step holds after any turns. -/
theorem run_induct {P : Traffic → Prop} (h : t.Honest reports) (hP : P t)
    (step : ∀ t turn t', P t → Step reports t turn t' → P t') (turns : List Turn) :
    (run reports t turns).Honest reports ∧ P (run reports t turns) :=
  List.foldlRecOn (motive := fun t => t.Honest reports ∧ P t) turns (next reports) ⟨h, hP⟩
    fun _ h turn _ => ⟨h.1.step (step_next h.1 turn), step _ _ _ h.2 (step_next h.1 turn)⟩

/-- **Promotion survives stale reads.** Once a fragment is in the cloud, no save that is under way takes it
back, in whatever order the calls of the saves come. -/
theorem promotion_final (reports : Nat → Report) (m : Memory) (before since : List Turn) (device : String)
    (timestamp : Int) :
    let t := run reports ⟨m, fun _ => .waiting⟩ before
    let t' := run reports t since
    t.store.InCloud device timestamp ∨ t.Promoted reports device timestamp →
      t'.store.InCloud device timestamp ∧
      (t.Promoted reports device timestamp ∨
          (∃ turns turn later, since = turns ++ turn :: later ∧
            (run reports t turns).Writes turn device timestamp) →
        t'.Settled reports device timestamp) := by
  intro t t' hcloud
  have ht : t.Honest reports := (run_induct (P := fun _ => True) (honest_start reports m) trivial
    (fun _ _ _ _ _ => trivial) before).1
  have hin : t.store.InCloud device timestamp := by
    rcases hcloud with hin | hp
    · exact hin
    · obtain ⟨i, f, -, -, -, -, hrec, hsays⟩ := ht.settled device timestamp hp
      exact Memory.inCloud_of_record hrec hsays.2
  have hstays := fun turns => run_induct (P := (·.store.InCloud device timestamp)) ht hin
    (fun _ _ _ hin hs => hs.inCloud hin) turns
  refine ⟨(hstays since).2, ?_⟩
  rintro (hp | ⟨turns, turn, later, rfl, hw⟩)
  · exact (run_induct ht (ht.settled device timestamp hp) (fun _ _ _ h hs => hs.settled h) since).2
  · obtain ⟨hhonest, hin'⟩ := hstays turns
    have hset := settled_of_writes hhonest hin' hw
    have hrun : t' = run reports (next reports (run reports t turns) turn) later := by
      show run reports t (turns ++ turn :: later) = _
      unfold run
      rw [List.foldl_append, List.foldl_cons]
    rw [hrun]
    exact (run_induct (hhonest.step (step_next hhonest turn)) hset (fun _ _ _ h hs => hs.settled h) later).2

/-- Three saves read the record before any of them writes: one for the device and two for the cloud. The
one for the device writes last and loses. -/
theorem promotion_final_stale :
    let reports : Nat → Report := fun
      | 0 => ⟨"d", 5, 300, .device, {}⟩
      | 1 => ⟨"d", 5, 400, .cloud, {}⟩
      | _ => ⟨"d", 5, 500, .cloud, {}⟩
    let t := run reports ⟨{}, fun _ => .waiting⟩ ([0, 1, 2, 1].map fun i => ⟨i, ⟨7, 0⟩, {}⟩)
    let t' := run reports t ([2, 0].map fun i => ⟨i, ⟨8, 0⟩, {}⟩)
    t.Promoted reports "d" 5 ∧ t'.store.InCloud "d" 5 ∧ t'.Settled reports "d" 5 ∧
      t'.store.record "d" 5 = .ok (some ⟨"d", 5, 500, .cloud, 7, 7, Fragment.expiry 5 90⟩) := by
  intro reports t t'
  have hone : t.phases 1 = .ended (.ok ()) := by rfl
  have hpromoted : t.Promoted reports "d" 5 := ⟨1, rfl, rfl, rfl, hone⟩
  obtain ⟨hin, hsettled⟩ := promotion_final reports {} _ _ "d" 5 (.inr hpromoted)
  exact ⟨hpromoted, hin, hsettled (.inl hpromoted), eq_ok_of_toOption (by decide +kernel)⟩

end Traffic

end Archive

end Footage
