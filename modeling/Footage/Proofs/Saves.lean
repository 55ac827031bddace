import Footage.Proofs.Archive.Save
import Footage.Proofs.Rollup.Save

/-!
# Saves are all or nothing

A save of an event or of a report either is accepted or fails, whatever items the store holds, whichever
calls it fails and whatever the clock reads (`saves_all_or_nothing`).

1. It is accepted if and only if every check passes, and fails with the failure of the first check
   that does not. What the checks ask is said of the stored item and its attributes, not of the save.
2. A failed save leaves the store as it is. An accepted one leaves every item but one as it is.
3. What an accepted save answers is what a load finds from then on. So a bucket is returned as it is
   stored, and no number is cut on the way.
-/

namespace Footage

/-- A store differs from the store `before` at most in the item under `k`. -/
structure ChangesOnly (k : Key) (before after : Memory) : Prop where
  elsewhere : ∀ j, j ≠ k → after.find? j = before.find? j
  apart : { after with rows := before.rows } = before

namespace ChangesOnly

theorem refl (k : Key) (m : Memory) : ChangesOnly k m m := ⟨fun _ _ => rfl, rfl⟩

theorem store (m : Memory) {i : Item} {k : Key} (h : i.key = k) : ChangesOnly k m (m.store i) :=
  ⟨fun _ hj => m.find?_store_of_ne i (h ▸ hj), rfl⟩

end ChangesOnly

/-- The answer of a save is told by the store `before`. No other item than the one under `k` can change,
nor that one if the save fails. -/
structure AllOrNothing {α : Type} (k : Key) (accepts : α → Prop) (refuses : Failure → Prop)
    (before : Memory) (outcome : Except Failure α × Desk Memory) : Prop where
  ok_iff : ∀ a, outcome.1 = .ok a ↔ accepts a
  error_iff : ∀ f, outcome.1 = .error f ↔ refuses f
  unchanged : ∀ f, outcome.1 = .error f → outcome.2.store = before
  changes_only : ChangesOnly k before outcome.2.store

/-- Where a save is accepted or refused, it is enough to know how it ends in either case. -/
theorem AllOrNothing.of_cases {α : Type} {k : Key} {accepts : α → Prop} {refuses : Failure → Prop}
    {before : Memory} {outcome : Except Failure α × Desk Memory}
    (hcases : (∃ a, accepts a) ∨ ∃ f, refuses f)
    (haccepts : ∀ a, accepts a → outcome.1 = .ok a ∧ ChangesOnly k before outcome.2.store)
    (hrefuses : ∀ f, refuses f → outcome.1 = .error f ∧ outcome.2.store = before) :
    AllOrNothing k accepts refuses before outcome := by
  rcases hcases with ⟨a, ha⟩ | ⟨f, hf⟩
  · obtain ⟨hok, honly⟩ := haccepts a ha
    have hno : ∀ f, outcome.1 ≠ .error f := fun f h => absurd (hok.symm.trans h) (by simp)
    refine ⟨fun a' => ⟨fun h => ?_, fun h => (haccepts a' h).1⟩,
      fun f => ⟨fun h => absurd h (hno f), fun h => (hrefuses f h).1⟩, fun f h => absurd h (hno f), honly⟩
    obtain rfl := Except.ok.inj (hok.symm.trans h)
    exact ha
  · obtain ⟨herr, hstore⟩ := hrefuses f hf
    have hno : ∀ a, outcome.1 ≠ .ok a := fun a h => absurd (herr.symm.trans h) (by simp)
    refine ⟨fun a => ⟨fun h => absurd h (hno a), fun h => (haccepts a h).1⟩,
      fun f' => ⟨fun h => ?_, fun h => (hrefuses f' h).1⟩, fun _ _ => hstore, hstore ▸ .refl k _⟩
    obtain rfl := Except.error.inj (herr.symm.trans h)
    exact hf

namespace Rollup

theorem allOrNothing_save (e : Event) (desk : Desk Memory) :
    AllOrNothing e.update.key (fun b => ∃ old, Passes e desk old b) (Refused e desk) desk.store
      (save Memory.backend e desk) := by
  refine .of_cases ?_ ?_ ?_
  · rcases passes_or_refused e desk with ⟨old, b, h⟩ | h
    · exact .inl ⟨b, old, h⟩
    · exact .inr h
  · rintro b ⟨old, h⟩
    rw [h.accepted.answer]
    exact ⟨rfl, .store desk.store (key_of_receive h.accepted.stored h.received)⟩
  · intro f h
    obtain ⟨clock, hs⟩ := h.save_eq
    rw [hs]
    exact ⟨rfl, rfl⟩

/-- A returned bucket is loaded from then on. -/
theorem load_of_save_eq_ok {e : Event} {desk desk' : Desk Memory} {b : Bucket}
    (h : save Memory.backend e desk = (.ok b, desk')) :
    load Memory.backend e.update.device e.update.granularity e.update.bucketStart desk' =
      (.ok (some b), desk') := by
  obtain ⟨old, hpass⟩ := ((allOrNothing_save e desk).ok_iff b).1 (by rw [h])
  have hacc := hpass.accepted
  rw [hacc.answer] at h
  obtain rfl := (Prod.mk.inj h).2
  exact load_eq_ok hpass.reachable hacc.stored_after

end Rollup

namespace Archive

variable (p : Paging) (device : String) (timestamp : Int) (duration : Nat) (l : Location)
  (desk : Desk Memory)

theorem allOrNothing_save :
    AllOrNothing ⟨Fragment.partition device, timestamp⟩
      (fun _ : Unit => ∃ old, Passes device timestamp duration l desk old)
      (Refused device timestamp duration l desk) desk.store
      (save Memory.backend p device timestamp duration l desk) := by
  refine .of_cases ?_ ?_ ?_
  · rcases passes_or_refused device timestamp duration l desk with h | h
    · exact .inl ⟨(), h⟩
    · exact .inr h
  · rintro ⟨⟩ ⟨old, h⟩
    have hacc := h.accepted p
    by_cases hk : Keeps old duration l
    · obtain ⟨clock, hs⟩ := hacc.kept hk
      rw [hs]
      exact ⟨rfl, .refl _ _⟩
    · rw [hacc.revised hk]
      exact ⟨rfl, .store desk.store rfl⟩
  · intro f h
    obtain ⟨clock, hs⟩ := h.save_eq p
    rw [hs]
    exact ⟨rfl, rfl⟩

variable {p device timestamp duration l desk}

/-- After an accepted report the loaded record says what was reported, or that the fragment is in the
cloud where the report says that it is on the device. -/
theorem load_of_save_eq_ok {desk' : Desk Memory}
    (h : save Memory.backend p device timestamp duration l desk = (.ok (), desk')) :
    ∃ new, load Memory.backend device timestamp desk' = (.ok new, desk') ∧ Keeps new duration l := by
  obtain ⟨old, hpass⟩ := ((allOrNothing_save p device timestamp duration l desk).ok_iff ()).1 (by rw [h])
  have hacc := hpass.accepted p
  obtain ⟨desk'', hs, -, hrec, -⟩ := hacc.answer
  rw [h] at hs
  obtain rfl := (Prod.mk.inj hs).2
  refine ⟨_, load_eq_ok ?_ hrec, keeps_outcome _ _ _ _ _ _ _⟩
  by_cases hk : Keeps old duration l
  · obtain ⟨clock, hs⟩ := hacc.kept hk
    obtain rfl := (Prod.mk.inj (h.symm.trans hs)).2
    exact hpass.possible.1
  · obtain rfl := (Prod.mk.inj (h.symm.trans (hacc.revised hk))).2
    exact hpass.possible.1

/-- A report for the device whose write the guard rejects is accepted and changes nothing. -/
theorem save_of_rejected {old : Option Fragment} (h : Passes device timestamp duration .device desk old)
    (hrejected : ¬ Fragment.notInCloud.Holds (desk.store.find? ⟨Fragment.partition device, timestamp⟩)) :
    ∃ clock, save Memory.backend p device timestamp duration .device desk =
      (.ok (), ⟨desk.store, clock⟩) := by
  have hacc := h.accepted p
  rw [Memory.notInCloud_holds hacc.stored] at hrejected
  refine hacc.kept ?_
  cases old with
  | none => exact absurd (by simp) hrejected
  | some f =>
    have hcloud : f.location = .cloud := by simpa using hrejected
    exact ⟨f, rfl, .inr ⟨hcloud, rfl⟩⟩

end Archive

/-- On a store of any items and with any faults, each kind of save answers as the checks tell, in their
order; it changes nothing if it fails, and at most the item of its own key otherwise. -/
theorem saves_all_or_nothing (desk : Desk Memory) :
    (∀ e : Event,
      AllOrNothing e.update.key (fun b => ∃ old, Rollup.Passes e desk old b) (Rollup.Refused e desk)
        desk.store (Rollup.save Memory.backend e desk) ∧
      ∀ b desk', Rollup.save Memory.backend e desk = (.ok b, desk') →
        Rollup.load Memory.backend e.update.device e.update.granularity e.update.bucketStart desk' =
          (.ok (some b), desk')) ∧
    ∀ (p : Paging) (device : String) (timestamp : Int) (duration : Nat),
      (∀ l, AllOrNothing ⟨Fragment.partition device, timestamp⟩
          (fun _ : Unit => ∃ old, Archive.Passes device timestamp duration l desk old)
          (Archive.Refused device timestamp duration l desk) desk.store
          (Archive.save Memory.backend p device timestamp duration l desk) ∧
        ∀ desk', Archive.save Memory.backend p device timestamp duration l desk = (.ok (), desk') →
          ∃ new, Archive.load Memory.backend device timestamp desk' = (.ok new, desk') ∧
            Archive.Keeps new duration l) ∧
      ∀ old, Archive.Passes device timestamp duration .device desk old →
        ¬ Fragment.notInCloud.Holds (desk.store.find? ⟨Fragment.partition device, timestamp⟩) →
        ∃ clock, Archive.save Memory.backend p device timestamp duration .device desk =
          (.ok (), ⟨desk.store, clock⟩) := by
  refine ⟨fun e => ⟨Rollup.allOrNothing_save e desk, fun b desk' => Rollup.load_of_save_eq_ok⟩,
    fun p device timestamp duration => ⟨fun l => ⟨?_, fun desk' => Archive.load_of_save_eq_ok⟩,
      fun old => Archive.save_of_rejected⟩⟩
  exact Archive.allOrNothing_save p device timestamp duration l desk

end Footage
