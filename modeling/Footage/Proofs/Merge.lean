import Footage.Bucket

/-!
# Merging an event into a bucket

Densities are added with saturation, but a bucket that passes the capacity check is far below the
limit, so nothing was cut off, and what is cut off never lets a bucket pass. So the check after a deposit
is one in unbounded numbers (`withinCapacity_deposit`), and so is a whole merge (`receive_exact`): a merged
bucket holds exactly what it held before, changed by the event (`receive_some`).
-/

namespace Footage

theorem Granularity.toNat_millis_lt (g : Granularity) : g.millis.toNat < Density.greatest := by
  cases g <;> decide

theorem Granularity.natCast_le_millis {n : Nat} {g : Granularity} :
    (n : Int) ≤ g.millis ↔ n ≤ g.millis.toNat := by
  have := g.millis_pos
  omega

theorem Location.eq_opposite_of_ne {l l' : Location} (h : l ≠ l') : l = l'.opposite := by
  cases l <;> cases l' <;> first | rfl | exact absurd rfl h

section

variable {ε α : Type} {c : Prop} [Decidable c] {a b : α} {e f : ε}

theorem ite_eq_ok_iff : (if c then Except.ok a else .error e) = .ok b ↔ c ∧ b = a := by
  by_cases h : c
  · simp [h, eq_comm]
  · simp [h]

theorem ite_eq_error_iff : (if c then Except.ok a else .error e) = .error f ↔ ¬ c ∧ f = e := by
  by_cases h : c
  · simp [h]
  · simp [h, eq_comm]

end

namespace Event

@[simp] theorem update_increment (u : Update) : (increment u).update = u := rfl
@[simp] theorem update_catchup (u : Update) : (catchup u).update = u := rfl
@[simp] theorem moves_increment (u : Update) : (increment u).moves = false := rfl
@[simp] theorem moves_catchup (u : Update) : (catchup u).moves = true := rfl

/-- What an event adds to the video that a bucket already has at a location. -/
def change (e : Event) (l : Location) : Int :=
  if e.update.location = l then e.update.duration
  else if e.moves then -e.update.duration else 0

theorem change_self (e : Event) : e.change e.update.location = e.update.duration := by
  unfold change
  rw [if_pos rfl]

theorem change_of_ne {e : Event} {l : Location} (h : l ≠ e.update.location) :
    e.change l = if e.moves then -(e.update.duration : Int) else 0 := by
  unfold change
  rw [if_neg h.symm]

end Event

namespace Bucket

@[simp] theorem withDensity_granularity (b : Bucket) (l : Location) (d : Nat) :
    (b.withDensity l d).granularity = b.granularity := by cases l <;> rfl

@[simp] theorem withDensity_start (b : Bucket) (l : Location) (d : Nat) :
    (b.withDensity l d).start = b.start := by cases l <;> rfl

@[simp] theorem capacity_withDensity (b : Bucket) (l : Location) (d : Nat) :
    (b.withDensity l d).capacity = b.capacity := by cases l <;> rfl

theorem withDensity_density (b : Bucket) (l : Location) : b.withDensity l (b.density l) = b := by
  cases l <;> rfl

theorem density_withDensity_of_ne (b : Bucket) {l l' : Location} (h : l' ≠ l) (d : Nat) :
    (b.withDensity l d).density l' = b.density l' := by
  cases l <;> cases l' <;> first | rfl | exact absurd rfl h

/-- The video of a bucket is that at a location and that at the other one. -/
theorem total_eq (b : Bucket) (l : Location) : b.total = b.density l + b.density l.opposite := by
  cases l
  · exact Nat.add_comm _ _
  · rfl

theorem total_withDensity (b : Bucket) (l : Location) (d : Nat) :
    (b.withDensity l d).total = d + b.density l.opposite := by
  cases l
  · exact Nat.add_comm _ _
  · rfl

/-! ## The capacity check -/

theorem withinCapacity_eq (b : Bucket) :
    b.withinCapacity = if b.total ≤ b.capacity then .ok b
      else .error (.overflow b.granularity b.start (min b.total Density.greatest) b.capacity) := by
  have hg : b.capacity < Density.greatest := b.granularity.toNat_millis_lt
  have hadd : Density.add b.cloudDensity b.deviceDensity = min b.total Density.greatest := rfl
  unfold withinCapacity
  simp only [hadd]
  by_cases h : b.total ≤ b.capacity
  · rw [if_pos h, if_neg (by omega)]
  · rw [if_neg h, if_pos (by omega)]

/-- A deposit passes the check exactly if the whole video fits, and then nothing of it is cut off. -/
theorem withinCapacity_deposit (b : Bucket) (l : Location) (d : Nat) :
    (b.deposit l d).withinCapacity =
      if b.total + d ≤ b.capacity then .ok (b.withDensity l (b.density l + d))
      else .error (.overflow b.granularity b.start (min (b.total + d) Density.greatest) b.capacity) := by
  have hg : b.capacity < Density.greatest := b.granularity.toNat_millis_lt
  have htotal := b.total_eq l
  have hdeposit : (b.deposit l d).total =
      min (b.density l + d) Density.greatest + b.density l.opposite := total_withDensity ..
  rw [withinCapacity_eq, hdeposit]
  unfold deposit
  rw [capacity_withDensity, withDensity_granularity, withDensity_start]
  by_cases h : b.total + d ≤ b.capacity
  · have hexact : Density.add (b.density l) d = b.density l + d := Nat.min_eq_left (by omega)
    rw [if_pos h, if_pos (by omega), hexact]
  · rw [if_neg h, if_neg (by omega)]
    congr 2
    omega

/-! ## The merged bucket -/

/-- The bucket `b` is `old` with this much video at a location and at the other one, changed at `now`. -/
structure Becomes (old b : Bucket) (l : Location) (here there : Nat) (now : Int) : Prop where
  device : b.device = old.device
  granularity : b.granularity = old.granularity
  start : b.start = old.start
  createdAt : b.createdAt = old.createdAt
  lastUpdated : b.lastUpdated = now
  here : b.density l = here
  there : b.density l.opposite = there

section

variable {old b : Bucket} {l : Location} {here there : Nat} {now : Int}

theorem becomes_iff : Becomes old b l here there now ↔
    b = { (old.withDensity l.opposite there).withDensity l here with lastUpdated := now } := by
  constructor
  · rintro ⟨hd, hg, hs, hc, hu, hh, ht⟩
    obtain ⟨_, _, _, _, _, _, _⟩ := b
    cases l <;> (simp only [density, Location.opposite] at *; subst_vars; rfl)
  · rintro rfl
    cases l <;> exact ⟨rfl, rfl, rfl, rfl, rfl, rfl, rfl⟩

theorem Becomes.total_eq (h : Becomes old b l here there now) : b.total = here + there := by
  rw [b.total_eq l, h.here, h.there]

theorem Becomes.total_le (h : Becomes old b l here there now)
    (hle : (↑(here + there) : Int) ≤ old.granularity.millis) : b.total ≤ b.capacity := by
  unfold capacity
  rw [h.total_eq, h.granularity]
  exact Granularity.natCast_le_millis.1 hle

end

theorem receive_none_eq (e : Event) (now : Int) :
    receive e none now =
      let u := e.update
      if u.duration ≤ u.granularity.millis.toNat then
        .ok ((empty u.device u.granularity u.bucketStart now).withDensity u.location u.duration)
      else .error (.overflow u.granularity u.bucketStart (min u.duration Density.greatest)
        u.granularity.millis.toNat) := by
  have htotal : ((empty e.update.device e.update.granularity e.update.bucketStart now).withDensity
      e.update.location e.update.duration).total = e.update.duration := by
    rw [total_withDensity]
    cases e.update.location <;> rfl
  show withinCapacity _ = _
  rw [withinCapacity_eq, htotal, capacity_withDensity, withDensity_granularity, withDensity_start]
  rfl

theorem receive_increment_eq (u : Update) (old : Bucket) (now : Int) :
    receive (.increment u) (some old) now =
      if old.total + u.duration ≤ old.capacity then
        .ok { old.withDensity u.location (old.density u.location + u.duration) with lastUpdated := now }
      else .error (.overflow old.granularity old.start (min (old.total + u.duration) Density.greatest)
        old.capacity) := by
  show ((old.deposit u.location u.duration).withinCapacity >>= fun b =>
    pure { b with lastUpdated := now }) = _
  rw [withinCapacity_deposit]
  by_cases h : old.total + u.duration ≤ old.capacity
  · rw [if_pos h, if_pos h]
    rfl
  · rw [if_neg h, if_neg h]
    rfl

/-- What a catchup takes away makes room for what it adds. -/
theorem receive_catchup_eq (u : Update) (old : Bucket) (now : Int) :
    receive (.catchup u) (some old) now =
      let source := u.location.opposite
      if old.density source < u.duration then
        .error (.insufficient source u.bucketStart (old.density source) u.duration)
      else if old.total ≤ old.capacity then
        .ok { (old.withDensity source (old.density source - u.duration)).withDensity u.location
          (old.density u.location + u.duration) with lastUpdated := now }
      else .error (.overflow old.granularity old.start (min old.total Density.greatest) old.capacity) := by
  show (old.apply u true >>= fun b => pure { b with lastUpdated := now }) = _
  unfold apply
  by_cases hs : old.density u.location.opposite < u.duration
  · simp only [hs, if_true]
    rfl
  · have htotal : (old.withDensity u.location.opposite
        (old.density u.location.opposite - u.duration)).total + u.duration = old.total := by
      rw [total_withDensity, Location.opposite_opposite, old.total_eq u.location]
      omega
    simp only [hs, if_false]
    rw [withinCapacity_deposit, htotal, capacity_withDensity, withDensity_granularity, withDensity_start,
      density_withDensity_of_ne _ u.location.opposite_ne.symm]
    by_cases h : old.total ≤ old.capacity
    · rw [if_pos h, if_pos h]
      rfl
    · rw [if_neg h, if_neg h]
      rfl

/-! ## What a merge answers -/

/-- The first event of a bucket, whatever its kind, is one on an empty bucket. -/
theorem receive_none_iff (e : Event) (now : Int) :
    let u := e.update
    (∀ b, receive e none now = .ok b ↔ (u.duration : Int) ≤ u.granularity.millis ∧
      Becomes (empty u.device u.granularity u.bucketStart now) b u.location u.duration 0 now) ∧
    ∀ f, receive e none now = .error f ↔ u.granularity.millis < u.duration ∧
      f = .overflow u.granularity u.bucketStart (min u.duration Density.greatest)
        u.granularity.millis.toNat := by
  intro u
  refine ⟨fun b => ?_, fun f => ?_⟩
  · have hempty : Becomes (empty u.device u.granularity u.bucketStart now) b u.location u.duration 0 now ↔
        b = (empty u.device u.granularity u.bucketStart now).withDensity u.location u.duration := by
      rw [becomes_iff]
      cases u.location <;> rfl
    rw [receive_none_eq, ite_eq_ok_iff, Granularity.natCast_le_millis, hempty]
  · rw [receive_none_eq, ite_eq_error_iff, ← Int.not_le, Granularity.natCast_le_millis]

theorem receive_increment_iff (u : Update) (old : Bucket) (now : Int) :
    (∀ b, receive (.increment u) (some old) now = .ok b ↔
      (↑(old.total + u.duration) : Int) ≤ old.granularity.millis ∧
        Becomes old b u.location (old.density u.location + u.duration) (old.density u.location.opposite)
          now) ∧
    ∀ f, receive (.increment u) (some old) now = .error f ↔
      old.granularity.millis < ↑(old.total + u.duration) ∧
        f = .overflow old.granularity old.start (min (old.total + u.duration) Density.greatest)
          old.granularity.millis.toNat := by
  refine ⟨fun b => ?_, fun f => ?_⟩
  · rw [receive_increment_eq, ite_eq_ok_iff, Granularity.natCast_le_millis, becomes_iff,
      withDensity_density]
    rfl
  · rw [receive_increment_eq, ite_eq_error_iff, ← Int.not_le, Granularity.natCast_le_millis]
    rfl

theorem receive_catchup_iff (u : Update) (old : Bucket) (now : Int) :
    (∀ b, receive (.catchup u) (some old) now = .ok b ↔
      u.duration ≤ old.density u.location.opposite ∧ (old.total : Int) ≤ old.granularity.millis ∧
        Becomes old b u.location (old.density u.location + u.duration)
          (old.density u.location.opposite - u.duration) now) ∧
    ∀ f, receive (.catchup u) (some old) now = .error f ↔
      old.density u.location.opposite < u.duration ∧
        f = .insufficient u.location.opposite u.bucketStart (old.density u.location.opposite) u.duration ∨
      u.duration ≤ old.density u.location.opposite ∧ old.granularity.millis < old.total ∧
        f = .overflow old.granularity old.start (min old.total Density.greatest)
          old.granularity.millis.toNat := by
  have heq := receive_catchup_eq u old now
  by_cases hs : old.density u.location.opposite < u.duration
  · rw [heq.trans (if_pos hs)]
    refine ⟨fun b => ?_, fun f => ?_⟩
    · simp [Nat.not_le.2 hs]
    · simp [hs, Nat.not_le.2 hs, eq_comm]
  · have hle := Nat.le_of_not_lt hs
    rw [heq.trans (if_neg hs)]
    refine ⟨fun b => ?_, fun f => ?_⟩
    · rw [ite_eq_ok_iff, Granularity.natCast_le_millis, becomes_iff, and_iff_right hle]
      rfl
    · rw [ite_eq_error_iff, ← Int.not_le, Granularity.natCast_le_millis, or_iff_right fun h => hs h.1,
        and_iff_right hle]
      rfl

/-- **A merge is exact.** It accepts what fits the bucket in unbounded numbers, and only the total that a
refusal reports stops at the greatest density. -/
theorem receive_exact (e : Event) (now : Int) :
    let u := e.update
    let l := u.location
    let d := u.duration
    (∀ b, receive e none now = .ok b ↔
      (d : Int) ≤ u.granularity.millis ∧
        Becomes (empty u.device u.granularity u.bucketStart now) b l d 0 now) ∧
    (∀ f, receive e none now = .error f ↔
      u.granularity.millis < d ∧
        f = .overflow u.granularity u.bucketStart (min d Density.greatest) u.granularity.millis.toNat) ∧
    ∀ old : Bucket,
      let here := old.density l
      let there := old.density l.opposite
      let total := old.cloudDensity + old.deviceDensity
      let capacity := old.granularity.millis
      match e with
      | .increment _ =>
        (∀ b, receive e (some old) now = .ok b ↔
          (↑(total + d) : Int) ≤ capacity ∧ Becomes old b l (here + d) there now) ∧
        ∀ f, receive e (some old) now = .error f ↔
          capacity < ↑(total + d) ∧
            f = .overflow old.granularity old.start (min (total + d) Density.greatest) capacity.toNat
      | .catchup _ =>
        (∀ b, receive e (some old) now = .ok b ↔
          d ≤ there ∧ (total : Int) ≤ capacity ∧ Becomes old b l (here + d) (there - d) now) ∧
        (∀ b, receive e (some old) now = .ok b → b.cloudDensity + b.deviceDensity = total) ∧
        ∀ f, receive e (some old) now = .error f ↔
          there < d ∧ f = .insufficient l.opposite u.bucketStart there d ∨
          d ≤ there ∧ capacity < total ∧
            f = .overflow old.granularity old.start (min total Density.greatest) capacity.toNat := by
  intro u l d
  obtain ⟨hok, herror⟩ := receive_none_iff e now
  refine ⟨hok, herror, fun old => ?_⟩
  cases e with
  | increment u => exact receive_increment_iff u old now
  | catchup u =>
    obtain ⟨hok, herror⟩ := receive_catchup_iff u old now
    refine ⟨hok, fun b hb => ?_, herror⟩
    obtain ⟨hle, -, hb⟩ := (hok b).1 hb
    have htotal := hb.total_eq
    have hold := old.total_eq u.location
    show b.total = old.total
    omega

/-- A bucket at its limit: an increment that would wrap a sum of 64 bits is refused, and a catchup of all
that is on the device is not. -/
example :
    let old : Bucket := ⟨"d", .seconds, 1000, 400, 600, 3, 5⟩
    receive (.increment ⟨"d", .seconds, 1000, Density.greatest, .cloud⟩) (some old) 7 =
        .error (.overflow .seconds 1000 Density.greatest 1000) ∧
      receive (.catchup ⟨"d", .seconds, 1000, 600, .cloud⟩) (some old) 7 =
        .ok ⟨"d", .seconds, 1000, 1000, 0, 3, 7⟩ := ⟨rfl, rfl⟩

/-! ## What an event changes -/

/-- The bucket `b` after an event, still with its old stamps. -/
structure Applied (e : Event) (old b : Bucket) : Prop where
  device : b.device = old.device
  granularity : b.granularity = old.granularity
  start : b.start = old.start
  createdAt : b.createdAt = old.createdAt
  density (l : Location) : (b.density l : Int) = old.density l + e.change l
  total_le : b.total ≤ b.capacity

/-- The event leaves the bucket as it was, changed by the event and stamped `now`. -/
theorem receive_some {e : Event} {old b : Bucket} {now : Int}
    (h : receive e (some old) now = .ok b) : Applied e old b ∧ b.lastUpdated = now := by
  have applied : ∀ {here there : Nat}, Becomes old b e.update.location here there now →
      (here : Int) = old.density e.update.location + e.update.duration →
      (there : Int) = old.density e.update.location.opposite + e.change e.update.location.opposite →
      (↑(here + there) : Int) ≤ old.granularity.millis → Applied e old b ∧ b.lastUpdated = now := by
    intro here there hb hhere hthere hle
    refine ⟨⟨hb.device, hb.granularity, hb.start, hb.createdAt, fun l => ?_, hb.total_le hle⟩,
      hb.lastUpdated⟩
    by_cases hl : l = e.update.location
    · rw [hl, hb.here, hhere, Event.change_self]
    · rw [Location.eq_opposite_of_ne hl, hb.there, hthere]
  have htotal := old.total_eq e.update.location
  cases e with
  | increment u =>
    obtain ⟨hle, hb⟩ := ((receive_increment_iff u old now).1 b).1 h
    refine applied hb (Int.natCast_add _ _) ?_ (by simp only [Event.update_increment] at htotal; omega)
    rw [Event.change_of_ne (Location.opposite_ne _)]
    simp
  | catchup u =>
    obtain ⟨hd, hle, hb⟩ := ((receive_catchup_iff u old now).1 b).1 h
    refine applied hb (Int.natCast_add _ _) ?_ (by simp only [Event.update_catchup] at htotal; omega)
    rw [Event.change_of_ne (Location.opposite_ne _)]
    simp only [Event.moves_catchup, Event.update_catchup, if_true]
    omega

/-- The first event of a bucket puts its video at its location, whatever its kind. -/
theorem receive_none {e : Event} {b : Bucket} {now : Int} (h : receive e none now = .ok b) :
    Becomes (empty e.update.device e.update.granularity e.update.bucketStart now) b e.update.location
      e.update.duration 0 now ∧ b.total ≤ b.capacity := by
  obtain ⟨hle, hb⟩ := ((receive_none_iff e now).1 b).1 h
  exact ⟨hb, hb.total_le hle⟩

end Bucket

end Footage
