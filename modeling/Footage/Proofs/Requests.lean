import Footage.Listing
import Footage.Proofs.Alike
import Footage.Proofs.Archive.Save
import Footage.Proofs.Rollup.Save

/-!
# Requests end alike on stores that do

Every request keeps to the partition of what it is about. So two stores that end alike on that partition
answer it alike. This holds of loads, saves and listings, of buckets and of fragments.
-/

namespace Footage

open Desk

variable {σ τ : Type} {R : σ → τ → Prop} {b : Backend σ} {b' : Backend τ} {device : String}

/-! ## Buckets -/

namespace Bucket

theorem key_of_toItem {c : Bucket} {i : Item} (h : c.toItem = .ok i) : i.key = c.key := by
  unfold toItem at h
  obtain ⟨cloud, -, h⟩ := bind_eq_ok.1 h
  obtain ⟨inDevice, -, h⟩ := bind_eq_ok.1 h
  obtain rfl := Except.ok.inj h
  rfl

end Bucket

namespace Rollup

variable {g : Granularity} {start : Int}

theorem alike_load (h : Backend.Alike R (Bucket.partition device g) b b') (start : Int) :
    Task.Alike (Corresponds R) (load b device g start) (load b' device g start) :=
  h.alike_load (Bucket.ofItem device g) rfl

/-- A bucket that is loaded is one of the device. -/
theorem of_load_eq_ok {desk : Desk σ} {old : Option Bucket}
    (h : (load b device g start desk).1 = .ok old) : ∀ c ∈ old, c.device = device ∧ c.granularity = g := by
  obtain ⟨found, desk', -, h⟩ := Task.bind_fst_eq_ok.1 h
  cases found with
  | none =>
    obtain rfl := Except.ok.inj h
    simp
  | some i =>
    obtain ⟨c, desk'', hc, h⟩ := Task.bind_fst_eq_ok.1 h
    obtain rfl := Except.ok.inj h
    rintro _ ⟨⟩
    obtain ⟨hd, hg, -⟩ := Bucket.parts_of_ofItem (of_check_eq_ok (congrArg Prod.fst hc))
    exact ⟨hd, hg⟩

theorem alike_save {e : Event}
    (h : Backend.Alike R (Bucket.partition e.update.device e.update.granularity) b b') :
    Task.Alike (Corresponds R) (save b e) (save b' e) := by
  unfold save
  by_cases ha : e.update.granularity.Aligned e.update.bucketStart
  · simp only [ha, if_true]
    refine (alike_load h _).bind_of (fun _ _ hold => of_load_eq_ok hold) fun old hold => ?_
    refine alike_readClock.bind fun now => ?_
    refine (alike_check _ _).bind_of (fun _ _ hc => of_check_eq_ok hc) fun c hc => ?_
    refine (alike_check _ _).bind_of (fun _ _ hi => of_check_eq_ok hi) fun i hi => ?_
    refine (alike_onStore (h.write _ ?_)).bind fun _ => .pure c
    obtain ⟨hd, hg, -⟩ := receive_names hold hc
    show i.key.partition = _
    rw [Bucket.key_of_toItem hi, ← hd, ← hg]
    rfl
  · simp only [ha, if_false]
    exact .throw _

end Rollup

/-! ## Fragments -/

namespace Archive

variable {p : Paging} {timestamp : Int} {duration : Nat} {l : Location}

theorem alike_load (h : Backend.Alike R (Fragment.partition device) b b') (timestamp : Int) :
    Task.Alike (Corresponds R) (load b device timestamp) (load b' device timestamp) :=
  h.alike_load (Fragment.ofItem device) rfl

theorem alike_attempt {w : Write} (h : Task.Alike R (b.write w) (b'.write w)) :
    Task.Alike R (attempt b w) (attempt b' w) := by
  intro s s' hs
  obtain ⟨heq, hR⟩ := h s s' hs
  unfold attempt
  rcases hb : b.write w s with ⟨r, s₁⟩
  rcases hb' : b'.write w s' with ⟨r', s₁'⟩
  rw [hb, hb'] at heq hR
  obtain rfl : r = r' := heq
  cases w.guard with
  | none => exact ⟨rfl, hR⟩
  | some c =>
    rcases r with e | _
    · cases e <;> exact ⟨rfl, hR⟩
    · exact ⟨rfl, hR⟩

theorem alike_save (h : Backend.Alike R (Fragment.partition device) b b') :
    Task.Alike (Corresponds R) (save b p device timestamp duration l)
      (save b' p device timestamp duration l) := by
  unfold save
  refine (alike_load h timestamp).bind fun old => ?_
  by_cases hs : old.any (·.Says duration l)
  · simp only [hs, if_true]
    exact .pure ()
  · simp only [hs, Bool.false_eq_true, if_false]
    refine alike_readClock.bind fun now => ?_
    refine (alike_check _ _).bind_of (fun _ _ hw => of_check_eq_ok hw) fun w hw => ?_
    refine alike_onStore (alike_attempt (h.write w ?_))
    obtain rfl := eq_writeOf_of_toWrite hw
    rfl

theorem alike_list (h : Backend.Alike R (Fragment.partition device) b b') {start stop : Int}
    {token : Option String} :
    Task.Alike (Corresponds R) (list b p device start stop token) (list b' p device start stop token) := by
  unfold list
  by_cases hle : start ≤ stop
  · simp only [hle, if_true]
    refine (alike_check _ _).bind fun after => ?_
    refine (alike_onStore (h.read (query p device start stop after) rfl)).bind fun page => ?_
    exact (alike_check _ _).bind fun records => .pure _
  · simp only [hle, if_false]
    exact .throw _

end Archive

/-! ## Listings of periods -/

namespace Listing

variable {r : Request}

theorem alike_firstPage (h : Backend.Alike R r.partition b b') {q : RangeRead}
    (hq : q.partition = r.partition) (reads : Nat) (after : Option Key) :
    Task.Alike R (firstPage b q reads after) (firstPage b' q reads after) := by
  induction reads generalizing after with
  | zero => exact .throw _
  | succ reads ih =>
    unfold firstPage
    refine (h.read (q.resumed after) hq).bind fun page => ?_
    rcases page.items with _ | ⟨i, is⟩
    · rcases page.next with _ | k
      · exact .pure _
      · exact ih (some k)
    · exact .pure _

theorem alike_remaining (h : Backend.Alike R r.partition b b') {q : RangeRead}
    (hq : q.partition = r.partition) (reads : Nat) (after : Key) :
    Task.Alike R (remaining b q reads after) (remaining b' q reads after) := by
  induction reads generalizing after with
  | zero => exact .throw _
  | succ reads ih =>
    unfold remaining
    refine (h.read (q.resumed (some after)) hq).bind fun page => ?_
    rcases page.next with _ | k
    · exact .pure _
    · exact (ih k).bind fun rest => .pure _

theorem alike_readBuckets (h : Backend.Alike R r.partition b b') (p : Paging) (lastBucket : Int)
    (after : Option Key) :
    Task.Alike (Corresponds R) (readBuckets b r p lastBucket after)
      (readBuckets b' r p lastBucket after) := by
  unfold readBuckets
  by_cases hlt : lastBucket < r.start
  · simp only [hlt, if_true]
    exact .pure _
  · simp only [hlt, if_false]
    refine (h.alike_readsOf _).bind fun n => ?_
    refine (alike_onStore (alike_firstPage h rfl n after)).bind fun page => ?_
    rcases page.next with _ | key
    · exact .pure _
    · rcases page.items.getLast? with _ | last
      · exact .pure _
      · simp only
        by_cases hfit : last.key.sort + r.bucketMillis < endOfPeriod r last.key.sort
        · simp only [hfit, if_true]
          refine (h.alike_readsOf _).bind fun n => ?_
          exact (alike_onStore (alike_remaining h rfl n key)).bind fun rest => .pure _
        · simp only [hfit, if_false]
          exact .pure _

theorem alike_page (h : Backend.Alike R r.partition b b') (p : Paging) :
    Task.Alike (Corresponds R) (page b p r) (page b' p r) := by
  unfold page pageBy
  refine (alike_check _ _).bind fun _ => (alike_check _ _).bind ?_
  rintro ⟨after, first⟩
  by_cases hle : r.stop ≤ first
  · simp only [hle, if_true]
    exact .pure _
  · simp only [hle, if_false]
    refine (alike_check _ _).bind fun lastBucket => ?_
    exact (alike_readBuckets h p lastBucket after).bind fun g => alike_check _ _

end Listing

end Footage
