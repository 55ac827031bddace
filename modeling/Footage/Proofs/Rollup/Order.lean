import Footage.Proofs.Rollup.Events
import Footage.Proofs.Rollup.Sound

/-!
# The order of increments

Increments that reach a store one after the other may be rejected, but whether any of them is does not
depend on their order.

1. An increment is accepted exactly if it is aligned and its bucket has room for it. It adds what it reports
   to its bucket, whether the bucket was there or not, and leaves the others as they are (`step_cases`).
2. So all of a batch are accepted exactly if each bucket has room for all that the batch reports of it
   (`accepts_iff`), which is a matter of sums.
3. Then each bucket holds what it held before and what the batch reports of it (`density_run`), and there
   is an item under each key under which there was one or that the batch names (`isSome_run`).
-/

namespace Footage

/-! ## What a store holds -/

namespace Memory

variable {m : Memory} {device : String} {g : Granularity} {start : Int} {l : Location}

/-- The video that a store holds in a bucket at a location. -/
def density (m : Memory) (device : String) (g : Granularity) (start : Int) (l : Location) : Nat :=
  ((m.bucket device g start).toOption.join.map (·.density l)).getD 0

theorem density_of_bucket {old : Option Bucket} (h : m.bucket device g start = .ok old) (l : Location) :
    m.density device g start l = (old.map (·.density l)).getD 0 := by
  unfold density
  rw [h]
  rfl

/-- The video that a store holds in a bucket. -/
def held (m : Memory) (device : String) (g : Granularity) (start : Int) : Nat :=
  m.density device g start .cloud + m.density device g start .device

end Memory

namespace Bucket

/-- An increment is accepted if there is room for it, whether there is a bucket yet or not. -/
theorem exists_receive_increment_iff {u : Update} {old : Option Bucket}
    (hold : ∀ c ∈ old, c.granularity = u.granularity) (now : Int) :
    (∃ b, receive (.increment u) old now = .ok b) ↔
      (((old.map (·.total)).getD 0 + u.duration : ℕ) : Int) ≤ u.granularity.millis := by
  cases old with
  | none =>
    obtain ⟨haccept, hreject⟩ := receive_none_iff (.increment u) now
    show _ ↔ ((0 + u.duration : ℕ) : Int) ≤ u.granularity.millis
    rw [Nat.zero_add]
    exact exists_ok_iff (fun b hb => ((haccept b).1 hb).1) fun f hf => Int.not_le.2 ((hreject f).1 hf).1
  | some c =>
    obtain ⟨haccept, hreject⟩ := receive_increment_iff u c now
    show _ ↔ ((c.total + u.duration : ℕ) : Int) ≤ u.granularity.millis
    rw [← hold c rfl]
    exact exists_ok_iff (fun b hb => ((haccept b).1 hb).1) fun f hf => Int.not_le.2 ((hreject f).1 hf).1

theorem Becomes.density_eq {old b : Bucket} {l : Location} {f : Location → Nat} {d : Nat} {now : Int}
    (h : Becomes old b l (f l + d) (f l.opposite) now) (l' : Location) :
    b.density l' = f l' + if l = l' then d else 0 := by
  by_cases hl : l = l'
  · subst hl
    rw [if_pos rfl]
    exact h.here
  · rw [if_neg hl, Location.eq_opposite_of_ne (Ne.symm hl)]
    exact h.there

/-- An accepted increment adds its video at its location. -/
theorem density_of_receive_increment {u : Update} {old : Option Bucket} {now : Int} {b : Bucket}
    (h : receive (.increment u) old now = .ok b) (l : Location) :
    b.density l = (old.map (·.density l)).getD 0 + if u.location = l then u.duration else 0 := by
  cases old with
  | none =>
    obtain ⟨-, hb⟩ := ((receive_none_iff _ now).1 b).1 h
    rw [Event.update_increment, ← Nat.zero_add u.duration] at hb
    exact hb.density_eq (f := fun _ => 0) l
  | some c =>
    obtain ⟨-, hb⟩ := ((receive_increment_iff u c now).1 b).1 h
    exact hb.density_eq l

end Bucket

namespace Rollup

/-! ## One increment -/

/-- An increment that the store does not fail. -/
def Arrival.Plain (a : Arrival) : Prop :=
  (∃ u, a.event = .increment u) ∧ a.faults.get = false ∧ a.faults.put = false

/-- What events report of a bucket. -/
def claimed (es : List Event) (device : String) (g : Granularity) (start : Int) : Nat :=
  reported .cloud (eventsOf es device g start) + reported .device (eventsOf es device g start)

/-- The buckets that the events name are aligned and have room for what is reported of them. -/
def HasRoom (m : Memory) (es : List Event) : Prop :=
  ∀ device g start, eventsOf es device g start ≠ [] → g.Aligned start ∧
    ((m.held device g start + claimed es device g start : ℕ) : Int) ≤ g.millis

section

variable {e : Event} {es es' : List Event} {device : String} {g : Granularity} {start : Int} {l : Location}

theorem eventsOf_cons (e : Event) (es : List Event) (device : String) (g : Granularity) (start : Int) :
    eventsOf (e :: es) device g start = eventsOf [e] device g start ++ eventsOf es device g start :=
  List.filter_append [e] es

theorem reported_append : reported l (es ++ es') = reported l es + reported l es' := by
  unfold reported
  rw [List.filter_append, List.map_append, List.sum_append]

theorem reported_eventsOf_cons (e : Event) (es : List Event) (device : String) (g : Granularity)
    (start : Int) (l : Location) : reported l (eventsOf (e :: es) device g start) =
      reported l (eventsOf [e] device g start) + reported l (eventsOf es device g start) := by
  rw [eventsOf_cons, reported_append]

theorem claimed_cons (e : Event) (es : List Event) (device : String) (g : Granularity) (start : Int) :
    claimed (e :: es) device g start = claimed [e] device g start + claimed es device g start := by
  have hcloud := reported_eventsOf_cons e es device g start .cloud
  have hdevice := reported_eventsOf_cons e es device g start .device
  unfold claimed
  omega

theorem eventsOf_singleton_self (e : Event) :
    eventsOf [e] e.update.device e.update.granularity e.update.bucketStart = [e] := by
  simp [eventsOf]

theorem claimed_singleton_self (e : Event) :
    claimed [e] e.update.device e.update.granularity e.update.bucketStart = e.update.duration := by
  unfold claimed reported
  rw [eventsOf_singleton_self]
  cases hl : e.update.location <;> simp [hl]

theorem eventsOf_singleton_of_ne (h : ¬ (e.update.device = device ∧ e.update.granularity = g ∧
    e.update.bucketStart = start)) : eventsOf [e] device g start = [] := by
  simp [eventsOf, h]

theorem hasRoom_singleton (m : Memory) (e : Event) : HasRoom m [e] ↔
    e.update.granularity.Aligned e.update.bucketStart ∧
      ((m.held e.update.device e.update.granularity e.update.bucketStart + e.update.duration : ℕ) : Int) ≤
        e.update.granularity.millis := by
  constructor
  · intro h
    have hself := h e.update.device e.update.granularity e.update.bucketStart
      (by rw [eventsOf_singleton_self]; simp)
    rwa [claimed_singleton_self] at hself
  · intro h device g start hne
    by_cases hk : e.update.device = device ∧ e.update.granularity = g ∧ e.update.bucketStart = start
    · obtain ⟨rfl, rfl, rfl⟩ := hk
      rwa [claimed_singleton_self]
    · exact absurd (eventsOf_singleton_of_ne hk) hne

/-- What events report does not depend on their order. -/
theorem reported_perm (h : es.Perm es') (l : Location) (device : String) (g : Granularity) (start : Int) :
    reported l (eventsOf es device g start) = reported l (eventsOf es' device g start) :=
  (((h.filter _).filter _).map _).sum_eq

theorem HasRoom.perm {m : Memory} (h : es.Perm es') (hroom : HasRoom m es) : HasRoom m es' := by
  intro device g start hne
  have hnil : eventsOf es device g start ≠ [] := fun hnil =>
    hne (List.Perm.nil_eq (hnil ▸ h.filter _ : [].Perm (eventsOf es' device g start))).symm
  obtain ⟨ha, hle⟩ := hroom device g start hnil
  unfold claimed at *
  rw [← reported_perm h, ← reported_perm h]
  exact ⟨ha, hle⟩

end

section

variable {h : History} {a : Arrival} {u : Update} {old : Option Bucket} {b : Bucket}

theorem held_of_bucket {m : Memory} {device : String} {g : Granularity} {start : Int} {old : Option Bucket}
    (h : m.bucket device g start = .ok old) : m.held device g start = (old.map (·.total)).getD 0 := by
  unfold Memory.held
  rw [Memory.density_of_bucket h, Memory.density_of_bucket h]
  cases old <;> rfl

/-- An increment is accepted if there is room for it and rejected otherwise. -/
theorem step_cases (hs : h.store.Sound) (ha : a.Plain) :
    (HasRoom h.store [a.event] ∧ ∃ old b, Accepted a.event (h.desk a) old b) ∨
      (¬ HasRoom h.store [a.event] ∧ ∃ f, (save Memory.backend a.event (h.desk a)).1 = .error f) := by
  obtain ⟨⟨u, hu⟩, hget, hput⟩ := ha
  obtain ⟨old, hold⟩ := hs.bucket_eq_ok u.device u.granularity u.bucketStart
  have hstored : (h.desk a).store.bucket u.device u.granularity u.bucketStart = .ok old := by
    rw [History.bucket_desk, hold]
  have hread := Memory.bucket_eq_ok_iff.1 hstored
  have hgranularity : ∀ c ∈ old, c.granularity = u.granularity := by
    rintro c rfl
    exact (names_of_bucket hold).2.1
  have hreceive := Bucket.exists_receive_increment_iff hgranularity a.clock.now
  rw [hasRoom_singleton, hu, Event.update_increment, held_of_bucket hold, ← hreceive]
  by_cases hal : u.granularity.Aligned u.bucketStart
  · cases hr : Bucket.receive (.increment u) old a.clock.now with
    | ok b =>
      have hpasses : Passes (.increment u) (h.desk a) old b := ⟨hal, hget, hread, hr, hput⟩
      exact .inl ⟨⟨hal, b, rfl⟩, old, b, hpasses.accepted⟩
    | error f =>
      have hrefused : Refused (.increment u) (h.desk a) (.consistency f) :=
        .inconsistent (e := .increment u) hal hget hread hr
      obtain ⟨clock, hsave⟩ := hrefused.save_eq
      exact .inr ⟨fun ⟨_, b, hb⟩ => absurd hb (by simp), _, congrArg Prod.fst hsave⟩
  · have hrefused : Refused (.increment u) (h.desk a) _ := .misaligned hal
    obtain ⟨clock, hsave⟩ := hrefused.save_eq
    exact .inr ⟨fun hroom => hal hroom.1, _, congrArg Prod.fst hsave⟩

theorem sound_next (hs : h.store.Sound) (ha : Accepted a.event (h.desk a) old b) : (h.next a).store.Sound := by
  rw [History.next_of_accepted ha]
  exact ha.sound (hs.congr rfl)

/-- An accepted increment adds what it reports. -/
theorem density_next (hu : a.event = .increment u) (ha : Accepted a.event (h.desk a) old b) (device : String)
    (g : Granularity) (start : Int) (l : Location) :
    (h.next a).store.density device g start l =
      h.store.density device g start l + reported l (eventsOf [a.event] device g start) := by
  obtain ⟨hd, hg, hst⟩ := ha.names
  rw [History.next_of_accepted ha]
  by_cases hk : a.event.update.device = device ∧ a.event.update.granularity = g ∧
      a.event.update.bucketStart = start
  · obtain ⟨rfl, rfl, rfl⟩ := hk
    have hold := ha.stored
    rw [History.bucket_desk] at hold
    have hreceived := ha.received
    rw [Memory.density_of_bucket ha.stored_after, Memory.density_of_bucket hold, eventsOf_singleton_self]
    rw [hu] at hreceived ⊢
    show b.density l = _
    rw [Bucket.density_of_receive_increment hreceived]
    unfold reported
    by_cases hl : u.location = l <;> simp [hl]
  · rw [eventsOf_singleton_of_ne hk]
    show Memory.density _ _ _ _ _ = _
    unfold Memory.density
    rw [Memory.bucket_store_of_ne _ _ (by rwa [hd, hg, hst]), History.bucket_desk]
    rfl

theorem held_next (hu : a.event = .increment u) (ha : Accepted a.event (h.desk a) old b) (device : String)
    (g : Granularity) (start : Int) : (h.next a).store.held device g start =
      h.store.held device g start + claimed [a.event] device g start := by
  unfold Memory.held claimed
  rw [density_next hu ha, density_next hu ha]
  omega

theorem isSome_next (ha : Accepted a.event (h.desk a) old b) (k : Key) :
    ((h.next a).store.find? k).isSome ↔ (h.store.find? k).isSome ∨ a.event.update.key = k := by
  obtain ⟨hd, hg, hst⟩ := ha.names
  have hkey : b.item.key = a.event.update.key := by
    rw [Bucket.key_item, Bucket.key, hd, hg, hst]
    rfl
  rw [History.next_of_accepted ha, ← hkey]
  by_cases hk : b.item.key = k
  · subst hk
    show ((Memory.store _ _).find? _).isSome ↔ _
    rw [Memory.find?_store_self]
    simp
  · show ((Memory.store _ _).find? _).isSome ↔ _
    rw [Memory.find?_store_of_ne _ _ (Ne.symm hk)]
    simp only [hk, or_false]
    rfl

end

/-! ## Batches -/

/-- The answers to arrivals that come one after the other. -/
def History.answers (h : History) : List Arrival → List (Except Failure Bucket)
  | [] => []
  | a :: as => (save Memory.backend a.event (h.desk a)).1 :: (h.next a).answers as

/-- All events of a batch are accepted. -/
def History.Accepts (h : History) (as : List Arrival) : Prop := ∀ r ∈ h.answers as, ∃ b, r = .ok b

instance (h : History) (as : List Arrival) : Decidable (h.Accepts as) :=
  decidable_of_iff (∀ r ∈ h.answers as, r.isOk = true) <| forall₂_congr fun r _ =>
    .symm (exists_ok_iff (by rintro _ rfl; rfl) (by rintro _ rfl; exact Bool.false_ne_true))

theorem not_accepts_iff {h : History} {as : List Arrival} :
    ¬ h.Accepts as ↔ ∃ f, .error f ∈ h.answers as := by
  unfold History.Accepts
  constructor
  · intro hnot
    simp only [not_forall] at hnot
    obtain ⟨r, hr, hno⟩ := hnot
    cases r with
    | ok b => exact absurd ⟨b, rfl⟩ hno
    | error f => exact ⟨f, hr⟩
  · rintro ⟨f, hf⟩ hall
    obtain ⟨b, hb⟩ := hall _ hf
    exact absurd hb (by simp)

section

variable {h : History} {a : Arrival} {as as' : List Arrival} {m : Memory} {e : Event} {es : List Event}

theorem accepts_cons : h.Accepts (a :: as) ↔
    (∃ b, (save Memory.backend a.event (h.desk a)).1 = .ok b) ∧ (h.next a).Accepts as :=
  List.forall_mem_cons

theorem HasRoom.head (hroom : HasRoom m (e :: es)) : HasRoom m [e] := by
  intro device g start hne
  obtain ⟨ha, hle⟩ := hroom device g start (by rw [eventsOf_cons]; simp [hne])
  rw [claimed_cons] at hle
  exact ⟨ha, by omega⟩

theorem hasRoom_cons {m' : Memory} (hheld : ∀ device g start,
    m'.held device g start = m.held device g start + claimed [e] device g start) :
    HasRoom m (e :: es) ↔ HasRoom m [e] ∧ HasRoom m' es := by
  refine ⟨fun hroom => ⟨hroom.head, fun device g start hne => ?_⟩, ?_⟩
  · obtain ⟨ha, hle⟩ := hroom device g start (by rw [eventsOf_cons]; simp [hne])
    rw [claimed_cons] at hle
    rw [hheld]
    exact ⟨ha, by omega⟩
  · rintro ⟨hfirst, hrest⟩ device g start hne
    rw [claimed_cons]
    by_cases hes : eventsOf es device g start = []
    · have hnone : claimed es device g start = 0 := by
        unfold claimed
        rw [hes]
        rfl
      rw [eventsOf_cons, hes, List.append_nil] at hne
      rw [hnone, Nat.add_zero]
      exact hfirst device g start hne
    · obtain ⟨ha, hle⟩ := hrest device g start hes
      rw [hheld] at hle
      exact ⟨ha, by omega⟩

/-- A batch is accepted if there is room for all that it reports. -/
theorem accepts_iff (hs : h.store.Sound) (hplain : ∀ a ∈ as, a.Plain) :
    h.Accepts as ↔ HasRoom h.store (as.map (·.event)) := by
  induction as generalizing h with
  | nil => exact ⟨fun _ _ _ _ hne => absurd rfl hne, fun _ _ hr => absurd hr List.not_mem_nil⟩
  | cons a as ih =>
    obtain ⟨ha, has⟩ := List.forall_mem_cons.1 hplain
    rw [accepts_cons, List.map_cons]
    rcases step_cases hs ha with ⟨hroom, old, b, hacc⟩ | ⟨hroom, f, hf⟩
    · obtain ⟨⟨u, hu⟩, -, -⟩ := ha
      rw [hasRoom_cons (held_next hu hacc), ih (sound_next hs hacc) has]
      exact and_congr_left fun _ => ⟨fun _ => hroom, fun _ => ⟨b, congrArg Prod.fst hacc.answer⟩⟩
    · exact ⟨fun ⟨⟨b, hb⟩, _⟩ => absurd (hb.symm.trans hf) (by simp), fun hall => absurd hall.head hroom⟩

/-- The first event of an accepted batch is accepted, and then the others are. -/
theorem accepts_step (hall : h.Accepts (a :: as)) :
    ∃ old b, Accepted a.event (h.desk a) old b ∧ (h.next a).Accepts as := by
  obtain ⟨⟨b, hb⟩, hrest⟩ := accepts_cons.1 hall
  rcases save_cases a.event (h.desk a) with ⟨old, b, hacc⟩ | ⟨f, clock, hf⟩
  · exact ⟨old, b, hacc, hrest⟩
  · rw [hf] at hb
    exact absurd hb (by simp)

theorem sound_run (hs : h.store.Sound) (hall : h.Accepts as) : (as.foldl History.next h).store.Sound := by
  induction as generalizing h with
  | nil => exact hs
  | cons a as ih =>
    obtain ⟨old, b, hacc, hrest⟩ := accepts_step hall
    exact ih (sound_next hs hacc) hrest

/-- After an accepted batch each bucket has what it had and what was reported of it. -/
theorem density_run (hplain : ∀ a ∈ as, a.Plain) (hall : h.Accepts as) (device : String) (g : Granularity)
    (start : Int) (l : Location) : (as.foldl History.next h).store.density device g start l =
      h.store.density device g start l + reported l (eventsOf (as.map (·.event)) device g start) := by
  induction as generalizing h with
  | nil => rfl
  | cons a as ih =>
    obtain ⟨⟨⟨u, hu⟩, -, -⟩, has⟩ := List.forall_mem_cons.1 hplain
    obtain ⟨old, b, hacc, hrest⟩ := accepts_step hall
    rw [List.foldl_cons, ih has hrest, density_next hu hacc, List.map_cons,
      reported_eventsOf_cons a.event (as.map (·.event)), Nat.add_assoc]

/-- After an accepted batch there are items under the keys that there were or that were named. -/
theorem isSome_run (hall : h.Accepts as) (k : Key) : ((as.foldl History.next h).store.find? k).isSome ↔
    (h.store.find? k).isSome ∨ ∃ e ∈ as.map (·.event), e.update.key = k := by
  induction as generalizing h with
  | nil => simp
  | cons a as ih =>
    obtain ⟨old, b, hacc, hrest⟩ := accepts_step hall
    rw [List.foldl_cons, ih hrest, isSome_next hacc, List.map_cons, List.exists_mem_cons_iff, or_assoc]

end

/-- The two stores have items under the same keys, and the same video in each bucket. -/
structure SameVideo (m m' : Memory) : Prop where
  isSome_eq (k : Key) : (m'.find? k).isSome = (m.find? k).isSome
  densities_eq (device : String) (g : Granularity) (start : Int) : ∃ old old',
    m.bucket device g start = .ok old ∧ m'.bucket device g start = .ok old' ∧
      Option.Rel (fun b b' => ∀ l, b'.density l = b.density l) old old'

theorem sameVideo_of_sound {m m' : Memory} (hs : m.Sound) (hs' : m'.Sound)
    (hkeys : ∀ k, (m'.find? k).isSome ↔ (m.find? k).isSome)
    (hdensity : ∀ device g start l, m'.density device g start l = m.density device g start l) :
    SameVideo m m' where
  isSome_eq k := Bool.eq_iff_iff.2 (hkeys k)
  densities_eq device g start := by
    obtain ⟨old, hold⟩ := hs.bucket_eq_ok device g start
    obtain ⟨old', hold'⟩ := hs'.bucket_eq_ok device g start
    refine ⟨old, old', hold, hold', ?_⟩
    have hsome := hkeys ⟨Bucket.partition device g, start⟩
    rw [Memory.isSome_find? hold, Memory.isSome_find? hold'] at hsome
    have heq := hdensity device g start
    simp only [Memory.density_of_bucket hold, Memory.density_of_bucket hold'] at heq
    cases old with
    | none =>
      cases old' with
      | none => exact .none
      | some b' => exact absurd (hsome.1 rfl) (by simp)
    | some b =>
      cases old' with
      | none => exact absurd (hsome.2 rfl) (by simp)
      | some b' => exact .some heq

/-- **Increments may come in any order.** Either order of a batch is accepted in full or neither is, and both
leave the same video in the same buckets. -/
theorem increments_commute (arrivals as as' : List Arrival) (hplain : ∀ a ∈ as, a.Plain)
    (hplain' : ∀ a ∈ as', a.Plain) (hperm : (as.map (·.event)).Perm (as'.map (·.event))) :
    let h := History.of arrivals
    (h.Accepts as → h.Accepts as' ∧
      SameVideo (as.foldl History.next h).store (as'.foldl History.next h).store) ∧
    ((∃ f, .error f ∈ h.answers as) → ∃ f, .error f ∈ h.answers as') := by
  intro h
  have hs : h.store.Sound := sound_of arrivals
  have hiff : h.Accepts as ↔ h.Accepts as' := by
    rw [accepts_iff hs hplain, accepts_iff hs hplain']
    exact ⟨.perm hperm, .perm hperm.symm⟩
  refine ⟨fun hall => ?_, fun hrejected => ?_⟩
  · have hall' := hiff.1 hall
    refine ⟨hall', sameVideo_of_sound (sound_run hs hall) (sound_run hs hall') (fun k => ?_) ?_⟩
    · rw [isSome_run hall, isSome_run hall']
      simp only [hperm.mem_iff]
    · intro device g start l
      rw [density_run hplain hall, density_run hplain' hall', reported_perm hperm]
  · rw [← not_accepts_iff] at hrejected ⊢
    exact fun hall' => hrejected (hiff.2 hall')

/-- The first batch fills a bucket that a catchup made, and makes another one. Of the second batch either event
can be accepted, but not both: which one is rejected depends on their order. -/
theorem increments_commute_mixed :
    let h := History.of [⟨.catchup ⟨"d", .seconds, 1000, 400, .device⟩, ⟨7, 0⟩, {}⟩]
    let cloud (now : Int) : Arrival := ⟨.increment ⟨"d", .seconds, 1000, 350, .cloud⟩, ⟨now, 0⟩, {}⟩
    let device (now : Int) : Arrival := ⟨.increment ⟨"d", .seconds, 1000, 250, .device⟩, ⟨now, 0⟩, {}⟩
    let other (now : Int) : Arrival := ⟨.increment ⟨"e", .minutes, 0, 50, .cloud⟩, ⟨now, 0⟩, {}⟩
    let most (now : Int) : Arrival := ⟨.increment ⟨"d", .seconds, 1000, 600, .cloud⟩, ⟨now, 0⟩, {}⟩
    (h.Accepts [device 8, cloud 9, other 9] ∧
      SameVideo ([cloud 8, other 9, device 10].foldl History.next h).store
        ([device 8, cloud 9, other 9].foldl History.next h).store) ∧
    ∃ f, .error f ∈ h.answers [most 8, cloud 9] := by
  intro h cloud device other most
  have hcloud (now : Int) : (cloud now).Plain := ⟨⟨_, rfl⟩, rfl, rfl⟩
  have hdevice (now : Int) : (device now).Plain := ⟨⟨_, rfl⟩, rfl, rfl⟩
  have hother (now : Int) : (other now).Plain := ⟨⟨_, rfl⟩, rfl, rfl⟩
  have hmost (now : Int) : (most now).Plain := ⟨⟨_, rfl⟩, rfl, rfl⟩
  constructor
  · exact (increments_commute _ _ _ (by simp [*]) (by simp [*]) (by decide +kernel)).1 (by decide +kernel)
  · exact (increments_commute _ [cloud 8, most 9] _ (by simp [*]) (by simp [*]) (by decide +kernel)).2
      (not_accepts_iff.1 (by decide +kernel))

end Rollup

end Footage
