import Footage.Archive
import Footage.Rollup

/-!
# Partitions name their parts

The partition of a rollup is the device, a `#` and the name of the granularity. No granularity has a
`#` in its name, so the last `#` of a partition tells where the device ends, whatever the device is
called. The fragments of a device share a partition with a rollup only if the rollup's device is called
`raw`, or begins with `raw#` (`Bucket.partition_eq_iff`). Any other rollup can be kept in one table with
fragments (`partitions_told_apart`).
-/

namespace Footage

/-- The last `c` of a text divides it in one way only. -/
theorem append_cons_inj_of_notMem {c : Char} {a a' b b' : List Char} (hb : c ∉ b) (hb' : c ∉ b')
    (h : a ++ c :: b = a' ++ c :: b') : a = a' ∧ b = b' := by
  rcases List.append_eq_append_iff.1 h with ⟨as, ha, hs⟩ | ⟨as, ha, hs⟩
  · cases as with
    | nil => simp_all
    | cons x xs =>
      rw [List.cons_append, List.cons.injEq] at hs
      exact absurd (by rw [hs.2]; simp) hb
  · cases as with
    | nil => simp_all
    | cons x xs =>
      rw [List.cons_append, List.cons.injEq] at hs
      exact absurd (by rw [hs.2]; simp) hb'

namespace Granularity

theorem name_injective : Function.Injective name := by
  intro g g' h
  cases g <;> cases g' <;> first | rfl | exact absurd h (by decide)

theorem hash_notMem_name (g : Granularity) : '#' ∉ g.name.toList := by cases g <;> decide

end Granularity

namespace Bucket

theorem toList_partition (device : String) (g : Granularity) :
    (partition device g).toList = device.toList ++ '#' :: g.name.toList := by
  unfold partition
  rw [String.toList_append, String.toList_append, List.append_assoc]
  rfl

theorem partition_inj {device device' : String} {g g' : Granularity} :
    partition device g = partition device' g' ↔ device = device' ∧ g = g' := by
  constructor
  · intro h
    have hl := congrArg String.toList h
    rw [toList_partition, toList_partition] at hl
    obtain ⟨hd, hn⟩ :=
      append_cons_inj_of_notMem g.hash_notMem_name g'.hash_notMem_name hl
    exact ⟨String.ext hd, Granularity.name_injective (String.ext hn)⟩
  · rintro ⟨rfl, rfl⟩
    rfl

end Bucket

namespace Fragment

theorem partition_inj {device device' : String} :
    partition device = partition device' ↔ device = device' := by
  constructor
  · intro h
    have hl := congrArg String.toList h
    unfold partition at hl
    rw [String.toList_append, String.toList_append] at hl
    exact String.ext (List.append_cancel_left hl)
  · rintro rfl
    rfl

theorem toList_partition (device : String) :
    (partition device).toList = ['r', 'a', 'w', '#'] ++ device.toList := by
  unfold partition
  rw [String.toList_append]
  rfl

end Fragment

/-- The texts that begin with `raw#`. -/
theorem exists_eq_raw_append_iff {s : String} :
    (∃ x, s = "raw#" ++ x) ↔ ['r', 'a', 'w', '#'] <+: s.toList := by
  constructor
  · rintro ⟨x, rfl⟩
    exact ⟨x.toList, (Fragment.toList_partition x).symm⟩
  · rintro ⟨x, hx⟩
    refine ⟨String.ofList x, String.ext ?_⟩
    have hlist := Fragment.toList_partition (String.ofList x)
    rw [String.toList_ofList] at hlist
    exact hx.symm.trans hlist.symm

theorem Bucket.partition_eq_iff {device device' : String} {g : Granularity} :
    Bucket.partition device g = Fragment.partition device' ↔
      (device = "raw" ∧ device' = g.name) ∨
        ∃ x, device = "raw#" ++ x ∧ device' = x ++ "#" ++ g.name := by
  constructor
  · intro h
    have hl := congrArg String.toList h
    rw [toList_partition, Fragment.toList_partition] at hl
    rcases List.append_eq_append_iff.1 hl with ⟨as, has, hs⟩ | ⟨bs, hbs, hs⟩
    · rcases as with _ | ⟨c, as⟩
      · refine .inr ⟨"", String.ext ?_, String.ext ?_⟩
        · simpa using has.symm
        · simpa using hs.symm
      · rw [List.cons_append, List.cons.injEq] at hs
        obtain ⟨rfl, hname⟩ := hs
        -- the first `#` of the partition ends the device, and the name has none
        have hnot : '#' ∉ as := fun hin => g.hash_notMem_name (hname ▸ List.mem_append_left _ hin)
        have hraw : ['r', 'a', 'w'] ++ '#' :: [] = device.toList ++ '#' :: as := has
        obtain ⟨hd, rfl⟩ := append_cons_inj_of_notMem List.not_mem_nil hnot hraw
        exact .inl ⟨String.ext hd.symm, String.ext hname.symm⟩
    · refine .inr ⟨String.ofList bs, String.ext ?_, String.ext ?_⟩
      · simpa using hbs
      · simpa using hs
  · rintro (⟨rfl, rfl⟩ | ⟨x, rfl, rfl⟩)
    · rfl
    · unfold partition Fragment.partition
      simp only [String.append_assoc]

/-- The devices whose rollups never share a partition with fragments. -/
theorem Bucket.forall_partition_ne_iff {device : String} {g : Granularity} :
    (∀ device', Bucket.partition device g ≠ Fragment.partition device') ↔
      device ≠ "raw" ∧ ¬ ∃ x, device = "raw#" ++ x := by
  constructor
  · intro h
    refine ⟨fun hraw => h g.name (partition_eq_iff.2 (.inl ⟨hraw, rfl⟩)), fun ⟨x, hx⟩ => ?_⟩
    exact h (x ++ "#" ++ g.name) (partition_eq_iff.2 (.inr ⟨x, hx, rfl⟩))
  · rintro ⟨hraw, hx⟩ device' heq
    rcases partition_eq_iff.1 heq with ⟨h, -⟩ | ⟨x, h, -⟩
    · exact hraw h
    · exact hx ⟨x, h⟩

/-- **What a partition tells.** A partition tells the device, and that of a rollup the granularity. Those of a
rollup and of fragments meet only where the rollup's device is `raw` or begins with `raw#`. -/
theorem partitions_told_apart (d d' : String) (g g' : Granularity) :
    (Bucket.partition d g = Bucket.partition d' g' ↔ d = d' ∧ g = g') ∧
    (Fragment.partition d = Fragment.partition d' ↔ d = d') ∧
    (Bucket.partition d g = Fragment.partition d' ↔
      (d = "raw" ∧ d' = g.name) ∨ ∃ x, d = "raw#" ++ x ∧ d' = x ++ "#" ++ g.name) ∧
    ∀ b : Bucket, (∀ f : Fragment, b.key ≠ f.key) ↔ b.device ≠ "raw" ∧ ¬ ∃ x, b.device = "raw#" ++ x := by
  refine ⟨Bucket.partition_inj, Fragment.partition_inj, Bucket.partition_eq_iff, fun b => ?_⟩
  rw [← Bucket.forall_partition_ne_iff (g := b.granularity)]
  constructor
  · intro h device' heq
    -- some fragment of that device has the time at which the bucket starts
    exact h ⟨device', b.start, 0, .cloud, 0, 0, 0⟩ (congrArg (Key.mk · b.start) heq)
  · exact fun h f heq => h f.device (congrArg Key.partition heq)

end Footage
