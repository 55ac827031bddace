import Footage.Proofs.Partitions
import Footage.Proofs.Requests
import Footage.Proofs.Store.Parts

/-!
# Devices do not see one another

Requests about many devices are worked on in one store, or in one store for buckets and one for
fragments. Those about one subject are answered as if nothing had been saved about any other.

1. A `Command` is about one `Subject`, and keeps to its partition (`Command.alike_work`).
2. Partitions that lie in one store are those of different subjects only (`partition_ne`).
3. Two runs match as long as they agree on the subject. Its own commands get the same answers and keep
   this (`Matches.own`), and other commands keep it whether or not both runs work on them
   (`Matches.other`).
4. So saves about other subjects can be left out (`answers_withoutOthers`).
-/

namespace Footage.Isolation

/-! ## Commands -/

/-- What a request is about. -/
inductive Subject
  | buckets (device : String) (g : Granularity)
  | fragments (device : String)
  deriving DecidableEq

namespace Subject

def partition : Subject → String
  | buckets device g => Bucket.partition device g
  | fragments device => Fragment.partition device

/-- The partition is not taken for one of fragments. -/
def Clear : Subject → Prop
  | buckets device _ => device ≠ "raw" ∧ ¬ ∃ x, device = "raw#" ++ x
  | fragments _ => True

instance : DecidablePred Clear := fun
  | buckets device _ =>
    decidable_of_iff (device ≠ "raw" ∧ ¬ ['r', 'a', 'w', '#'] <+: device.toList)
      (by rw [← exists_eq_raw_append_iff]; rfl)
  | fragments _ => .isTrue trivial

end Subject

/-- A request. -/
inductive Command
  | saveBucket (e : Event)
  | loadBucket (device : String) (g : Granularity) (start : Int)
  | listPeriods (r : Listing.Request)
  | saveFragment (device : String) (timestamp : Int) (duration : Nat) (l : Location)
  | loadFragment (device : String) (timestamp : Int)
  | listFragments (device : String) (start stop : Int) (token : Option String)

inductive Answer
  | savedBucket (b : Bucket)
  | bucket (b : Option Bucket)
  | periods (page : PeriodPage)
  | savedFragment
  | fragment (f : Option Fragment)
  | fragments (page : FragmentPage)
  deriving DecidableEq

namespace Command

open Desk

def subject : Command → Subject
  | saveBucket e => .buckets e.update.device e.update.granularity
  | loadBucket device g _ => .buckets device g
  | listPeriods r => .buckets r.device r.granularity
  | saveFragment device _ _ _ => .fragments device
  | loadFragment device _ => .fragments device
  | listFragments device _ _ _ => .fragments device

def saves : Command → Bool
  | saveBucket _ | saveFragment _ _ _ _ => true
  | _ => false

def work {σ : Type} (b : Backend σ) (p : Paging) : Command → DeskTask σ Answer
  | saveBucket e => do return .savedBucket (← Rollup.save b e)
  | loadBucket device g start => do return .bucket (← Rollup.load b device g start)
  | listPeriods r => do return .periods (← Listing.page b p r)
  | saveFragment device timestamp duration l => do
    Archive.save b p device timestamp duration l
    return .savedFragment
  | loadFragment device timestamp => do return .fragment (← Archive.load b device timestamp)
  | listFragments device start stop token => do
    return .fragments (← Archive.list b p device start stop token)

/-- A command keeps to the partition of its subject. -/
theorem alike_work {σ τ : Type} {R : σ → τ → Prop} {b : Backend σ} {b' : Backend τ} {c : Command}
    (h : Backend.Alike R c.subject.partition b b') (p : Paging) :
    Task.Alike (Corresponds R) (c.work b p) (c.work b' p) := by
  cases c with
  | saveBucket e => exact (Rollup.alike_save h).bind fun _ => .pure _
  | loadBucket device g start => exact (Rollup.alike_load h start).bind fun _ => .pure _
  | listPeriods r => exact (Listing.alike_page h p).bind fun _ => .pure _
  | saveFragment device timestamp duration l => exact (Archive.alike_save h).bind fun _ => .pure _
  | loadFragment device timestamp => exact (Archive.alike_load h timestamp).bind fun _ => .pure _
  | listFragments device start stop token => exact (Archive.alike_list h).bind fun _ => .pure _

end Command

/-! ## Stores -/

/-- Buckets and fragments are kept in a store each, or in one. -/
inductive Stores
  | separate (buckets fragments : Memory)
  | shared (store : Memory)

namespace Stores

variable {s s' : Stores} {S T : Subject} {m : Memory}

def Shared : Stores → Prop
  | separate _ _ => False
  | shared _ => True

/-- The store of a subject. -/
def store : Stores → Subject → Memory
  | separate m _, .buckets _ _ => m
  | separate _ m, .fragments _ => m
  | shared m, _ => m

/-- The stores with that of a subject replaced. -/
def put : Stores → Subject → Memory → Stores
  | separate _ n, .buckets _ _, m => separate m n
  | separate n _, .fragments _, m => separate n m
  | shared _, _, m => shared m

/-- The subjects are kept in one store. -/
def Together : Stores → Subject → Subject → Prop
  | separate _ _, .buckets _ _, .buckets _ _ => True
  | separate _ _, .fragments _, .fragments _ => True
  | separate _ _, _, _ => False
  | shared _, _, _ => True

theorem shared_put : (s.put T m).Shared ↔ s.Shared := by
  cases s <;> cases T <;> rfl

theorem store_put_self : (s.put S m).store S = m := by
  cases s <;> cases S <;> rfl

theorem store_of_together (h : s.Together S T) : s.store T = s.store S := by
  cases s <;> cases S <;> cases T <;> first | rfl | exact absurd h id

theorem store_put_of_together (h : s.Together S T) : (s.put T m).store S = m := by
  cases s <;> cases S <;> cases T <;> first | rfl | exact absurd h id

theorem store_put_of_not_together (h : ¬ s.Together S T) : (s.put T m).store S = s.store S := by
  cases s <;> cases S <;> cases T <;> first | rfl | exact absurd trivial h

/-- Different subjects that are kept in one store have different partitions. -/
theorem partition_ne (h : s.Together S T) (hclear : s.Shared → S.Clear ∧ T.Clear) (hne : S ≠ T) :
    S.partition ≠ T.partition := by
  intro hp
  -- buckets and fragments are together in a shared store only
  have hmixed : ∀ {device device' g}, s.Together (.buckets device g) (.fragments device') ∨
      s.Together (.fragments device') (.buckets device g) → s.Shared := fun h => by
    cases s
    · exact h.elim id id
    · trivial
  have happart : ∀ {device device' g}, (Subject.buckets device g).Clear →
      Bucket.partition device g ≠ Fragment.partition device' := fun hc he => by
    rcases Bucket.partition_eq_iff.1 he with ⟨rfl, -⟩ | ⟨x, rfl, -⟩
    · exact hc.1 rfl
    · exact hc.2 ⟨x, rfl⟩
  cases S with
  | buckets device g =>
    cases T with
    | buckets device' g' =>
      obtain ⟨rfl, rfl⟩ := Bucket.partition_inj.1 hp
      exact hne rfl
    | fragments device' => exact happart (hclear (hmixed (.inl h))).1 hp
  | fragments device =>
    cases T with
    | buckets device' g' => exact happart (hclear (hmixed (.inr h))).2 hp.symm
    | fragments device' => exact hne (congrArg Subject.fragments (Fragment.partition_inj.1 hp))

/-- No call of the stores is made to fail. -/
def Quiet (s : Stores) : Prop := ∀ S, (s.store S).faults = {}

end Stores

/-! ## Runs -/

/-- The answer to a command at the time `now`, and the desk it leaves. -/
def outcome (p : Paging) (now : Int) (s : Stores) (c : Command) : Except Failure Answer × Desk Memory :=
  c.work Memory.backend p ⟨s.store c.subject, { now }⟩

/-- The stores after a command. -/
def next (p : Paging) (now : Int) (s : Stores) (c : Command) : Stores :=
  s.put c.subject (outcome p now s c).2.store

/-- The commands with their answers when they are worked on one after the other. -/
def answers (p : Paging) (now : Int) : Stores → List Command → List (Command × Except Failure Answer)
  | _, [] => []
  | s, c :: cs => (c, (outcome p now s c).1) :: answers p now (next p now s c) cs

/-- The commands without the saves about other subjects. -/
def withoutOthers (S : Subject) (cs : List Command) : List Command :=
  cs.filter fun c => ¬ c.saves ∨ c.subject = S

/-- The answers to the commands about a subject. -/
def answersAbout (S : Subject) (as : List (Command × Except Failure Answer)) :
    List (Command × Except Failure Answer) := as.filter (·.1.subject = S)

/-- Both runs keep the same about the subject. -/
structure Matches (S : Subject) (s s' : Stores) : Prop where
  shared : s.Shared ↔ s'.Shared
  agree : Memory.Agree S.partition (s.store S) (s'.store S)

variable {p : Paging} {now : Int} {S : Subject} {s s' : Stores} {c : Command} {cs : List Command}

theorem Matches.refl (h : s.Quiet) : Matches S s s := ⟨.rfl, fun _ _ => rfl, rfl, h S, h S⟩

theorem Matches.symm (h : Matches S s s') : Matches S s' s := ⟨h.shared.symm, h.agree.symm⟩

/-- A command about the subject gets one answer in both runs. -/
theorem Matches.own (p : Paging) (now : Int) (h : Matches S s s') (hc : c.subject = S) :
    (outcome p now s c).1 = (outcome p now s' c).1 ∧ Matches S (next p now s c) (next p now s' c) := by
  subst hc
  obtain ⟨heq, hagree, -⟩ := c.alike_work Memory.Agree.alike p ⟨s.store c.subject, { now }⟩
    ⟨s'.store c.subject, { now }⟩ ⟨h.agree, rfl⟩
  refine ⟨heq, (Stores.shared_put.trans h.shared).trans Stores.shared_put.symm, ?_⟩
  unfold next
  rw [Stores.store_put_self, Stores.store_put_self]
  exact hagree

/-- A command about another subject in one run changes nothing about this one. -/
theorem Matches.other (h : Matches S s s') (hclear : s.Shared → S.Clear ∧ c.subject.Clear)
    (hne : c.subject ≠ S) : Matches S (next p now s c) s' := by
  refine ⟨Stores.shared_put.trans h.shared, ?_⟩
  unfold next
  by_cases ht : s.Together S c.subject
  · have hstore : s.store c.subject = s.store S := Stores.store_of_together ht
    obtain ⟨-, ⟨-, hbeside⟩, -⟩ := c.alike_work Memory.Beside.alike p ⟨s.store c.subject, { now }⟩
      ⟨s.store c.subject, { now }⟩ ⟨⟨rfl, Memory.Beside.refl (hstore ▸ h.agree.faults)⟩, rfl⟩
    rw [Stores.store_put_of_together ht]
    rw [hstore] at hbeside
    rw [outcome, hstore]
    exact h.agree.of_beside hbeside (Stores.partition_ne ht hclear hne.symm)
  · rw [Stores.store_put_of_not_together ht]
    exact h.agree

theorem withoutOthers_cons_of_keep (h : c.saves = true → c.subject = S) :
    withoutOthers S (c :: cs) = c :: withoutOthers S cs :=
  List.filter_cons_of_pos (decide_eq_true (Decidable.not_or_of_imp h))

theorem withoutOthers_cons_of_drop (hs : c.saves = true) (hne : c.subject ≠ S) :
    withoutOthers S (c :: cs) = withoutOthers S cs :=
  List.filter_cons_of_neg (by simp [hs, hne])

theorem answersAbout_cons_self (h : c.subject = S) :
    answersAbout S (answers p now s (c :: cs)) =
      (c, (outcome p now s c).1) :: answersAbout S (answers p now (next p now s c) cs) :=
  List.filter_cons_of_pos (decide_eq_true h)

theorem answersAbout_cons_of_ne (h : c.subject ≠ S) :
    answersAbout S (answers p now s (c :: cs)) = answersAbout S (answers p now (next p now s c) cs) :=
  List.filter_cons_of_neg (by simp [h])

/-- Runs that match give the commands about the subject the same answers, with or without the saves
about others. -/
theorem Matches.answersAbout_eq (h : Matches S s s') (hS : s.Shared → S.Clear)
    (hclear : s.Shared → ∀ c ∈ cs, c.subject.Clear) :
    answersAbout S (answers p now s' (withoutOthers S cs)) = answersAbout S (answers p now s cs) := by
  induction cs generalizing s s' with
  | nil => rfl
  | cons c cs ih =>
    have hc : s.Shared → S.Clear ∧ c.subject.Clear := fun hs => ⟨hS hs, hclear hs c List.mem_cons_self⟩
    have ih : ∀ {s' : Stores}, Matches S (next p now s c) s' →
        answersAbout S (answers p now s' (withoutOthers S cs)) =
          answersAbout S (answers p now (next p now s c) cs) := fun h =>
      ih h (hS ∘ Stores.shared_put.1) fun hs d hd =>
        hclear (Stores.shared_put.1 hs) d (List.mem_cons_of_mem _ hd)
    by_cases hown : c.subject = S
    · obtain ⟨heq, hmatch⟩ := h.own p now hown
      rw [withoutOthers_cons_of_keep fun _ => hown, answersAbout_cons_self hown, answersAbout_cons_self hown,
        heq, ih hmatch]
    by_cases hsaves : c.saves = true
    · rw [withoutOthers_cons_of_drop hsaves hown, answersAbout_cons_of_ne hown, ih (h.other hc hown)]
    · rw [withoutOthers_cons_of_keep fun hs => absurd hs hsaves, answersAbout_cons_of_ne hown,
        answersAbout_cons_of_ne hown, ih ((h.symm.other (hc ∘ h.shared.2) hown).symm.other hc hown)]

theorem answersAbout_eq_nil (h : ∀ c ∈ cs, c.subject ≠ S) : answersAbout S (answers p now s cs) = [] := by
  induction cs generalizing s with
  | nil => rfl
  | cons c cs ih =>
    rw [answersAbout_cons_of_ne (h c List.mem_cons_self)]
    exact ih fun d hd => h d (List.mem_cons_of_mem _ hd)

/-- The answers about a subject do not depend on the saves about others. In one store for all, no bucket may be
of a device whose name begins as the partitions of fragments do. -/
theorem answers_withoutOthers (p : Paging) (now : Int) {s : Stores} (hquiet : s.Quiet) {cs : List Command}
    (hclear : s.Shared → ∀ c ∈ cs, c.subject.Clear) (S : Subject) :
    answersAbout S (answers p now s (withoutOthers S cs)) = answersAbout S (answers p now s cs) := by
  by_cases hS : ∃ c ∈ cs, c.subject = S
  · obtain ⟨c, hc, rfl⟩ := hS
    exact (Matches.refl hquiet).answersAbout_eq (fun hs => hclear hs c hc) hclear
  · have hnone : ∀ c ∈ cs, c.subject ≠ S := fun c hc he => hS ⟨c, hc, he⟩
    have hnone' : ∀ c ∈ withoutOthers S cs, c.subject ≠ S := fun c hc => hnone c (List.mem_filter.1 hc).1
    rw [answersAbout_eq_nil hnone, answersAbout_eq_nil hnone']

/-- Names with a `#` in them are told apart in one store, with one item on a page. -/
theorem answers_withoutOthers_hash :
    (Stores.shared { pageSize := some 1 }).Quiet ∧
      answersAbout (.buckets "a#seconds" .seconds) (answers {} 7 (.shared { pageSize := some 1 })
        [.saveBucket (.increment ⟨"a", .seconds, 0, 300, .cloud⟩),
          .saveBucket (.increment ⟨"a#seconds", .seconds, 0, 400, .device⟩),
          .saveFragment "a#seconds#seconds" 0 500 .cloud,
          .loadBucket "a#seconds" .seconds 0,
          .listPeriods ⟨"a#seconds", .seconds, 0, 1000, 1000, none⟩]) =
        answersAbout (.buckets "a#seconds" .seconds) (answers {} 7 (.shared { pageSize := some 1 })
          [.saveBucket (.increment ⟨"a#seconds", .seconds, 0, 400, .device⟩),
            .loadBucket "a#seconds" .seconds 0,
            .listPeriods ⟨"a#seconds", .seconds, 0, 1000, 1000, none⟩]) := by
  have hquiet : (Stores.shared { pageSize := some 1 }).Quiet := fun _ => rfl
  refine ⟨hquiet, (answers_withoutOthers {} 7 hquiet (fun _ c hc => ?_) _).symm⟩
  revert c
  decide

end Footage.Isolation
