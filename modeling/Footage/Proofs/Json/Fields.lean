import Mathlib.Data.List.Perm.Basic
import Mathlib.Data.List.Count
import Mathlib.Data.List.Nodup
import Footage.Json.Fields
import Footage.Proofs.Json.Reading
import Footage.Proofs.Store.OrderedMap

/-!
# The forms of a record

1. A record may be given as an object in any order, with more members under other names, or as an array of
   its fields. `Restates` says which values give a record; all of them have the same fields
   (`fields?_restates`).
2. A value is `Faulty` if it gives a field twice or lacks one that is needed. Such a value has no fields, or not
   all of them (`not_faulty`).
3. A list is read item by item (`mapM_eq_some_iff`), so it is not read where one of its items is not.
-/

namespace Footage

/-! ## Lists that are read item by item -/

/-- What was written item by item is read back. -/
theorem mapM_map_eq_pure {m : Type → Type} [Monad m] [LawfulMonad m] {α β : Type} {f : α → β} {g : β → m α}
    {as : List α} (h : ∀ a ∈ as, g (f a) = pure a) : (as.map f).mapM g = pure as := by
  induction as with
  | nil => rfl
  | cons a as ih =>
    rw [List.map_cons, List.mapM_cons, h a List.mem_cons_self, ih fun b hb => h b (List.mem_cons_of_mem _ hb)]
    simp only [pure_bind]

theorem mapM_eq_some_iff {α β : Type} {f : α → Option β} {as : List α} {bs : List β} :
    as.mapM f = some bs ↔ List.Forall₂ (fun a b => f a = some b) as bs := by
  induction as generalizing bs with
  | nil => simp [eq_comm]
  | cons a as ih =>
    rw [List.mapM_cons]
    constructor
    · intro h
      obtain ⟨b, hb, h⟩ := Option.bind_eq_some_iff.1 h
      obtain ⟨bs, hbs, h⟩ := Option.bind_eq_some_iff.1 h
      obtain rfl := Option.some.inj h
      exact .cons hb (ih.1 hbs)
    · rintro (_ | ⟨hb, hbs⟩)
      rw [hb, ih.2 hbs]
      rfl

/-- A list is read where each of its items is. -/
theorem exists_mapM {α β : Type} {f : α → Option β} {as : List α} (h : ∀ a ∈ as, f a ≠ none) :
    ∃ bs, as.mapM f = some bs := by
  induction as with
  | nil => exact ⟨[], rfl⟩
  | cons a as ih =>
    obtain ⟨b, hb⟩ := Option.ne_none_iff_exists'.1 (h a List.mem_cons_self)
    obtain ⟨bs, hbs⟩ := ih fun a ha => h a (List.mem_cons_of_mem _ ha)
    exact ⟨b :: bs, mapM_eq_some_iff.2 (.cons hb (mapM_eq_some_iff.1 hbs))⟩

theorem exists_of_mem_mapM {α β : Type} {f : α → Option β} {as : List α} {bs : List β}
    (h : as.mapM f = some bs) : ∀ a ∈ as, ∃ b, f a = some b := by
  rw [mapM_eq_some_iff] at h
  induction h with
  | nil => exact fun a ha => absurd ha List.not_mem_nil
  | cons hb _ ih =>
    intro a ha
    rcases List.mem_cons.1 ha with rfl | ha
    · exact ⟨_, hb⟩
    · exact ih a ha

theorem mem_mapM_iff {α β : Type} {f : α → Option β} {as : List α} {bs : List β} (h : as.mapM f = some bs)
    (b : β) : b ∈ bs ↔ ∃ a ∈ as, f a = some b := by
  rw [mapM_eq_some_iff] at h
  induction h with
  | nil => simp
  | cons hb _ ih => simp [ih, hb, eq_comm]

namespace Json.Value

/-! ## Records -/

/-- A value that may stand under a name that is no field. -/
inductive Plain : Value → Prop
  | null : Plain null
  | truth (b : Bool) : Plain (truth b)
  | string (s : String) : Plain (str s)
  | int {n : Int} (hleast : Stamp.least ≤ n) (hgreatest : n ≤ Density.greatest) : Plain (int n)

/-- The second value gives the record that the first one is: as an object with the same members in any order,
among others under names that are no fields, or as the array of all fields. -/
inductive Restates (names : List String) : Value → Value → Prop
  | object {given ms extra : List (String × Value)} (hperm : ms.Perm (given ++ extra))
      (hextra : ∀ m ∈ extra, m.1 ∉ names ∧ m.2.Plain) : Restates names (record given) (record ms)
  | array {given : List (String × Value)} (h : given.map (·.1) = names) :
      Restates names (record given) (array (given.map (·.2)))

/-- A value that does not give a record with these fields: an object that gives one twice or lacks one that is
needed, or an array of another length. -/
inductive Faulty (names : List String) : Value → Prop
  | twice {ms : List (Option String × Value)} {n : String} (hn : n ∈ names)
      (h : 2 ≤ (ms.map (·.1)).count (some n)) : Faulty names (object ms)
  | missing {ms : List (Option String × Value)} {n : String} (hn : n ∈ names) (hneeded : n ≠ "nextToken")
      (h : some n ∉ ms.map (·.1)) : Faulty names (object ms)
  | length {items : List Value} (h : items.length ≠ names.length) : Faulty names (array items)

variable {names : List String} {given ms : List (String × Value)}

theorem restates_self (given : List (String × Value)) : Restates names (record given) (record given) :=
  .object (.of_eq (List.append_nil given).symm) fun _ hm => absurd hm List.not_mem_nil

theorem record_inj (h : record given = record ms) : given = ms := by
  refine List.map_injective_iff.2 (fun m m' hm => ?_) (Value.object.inj h)
  obtain ⟨hname, hvalue⟩ := Prod.mk.inj hm
  exact Prod.ext (Option.some.inj hname) hvalue

/-! ## Members by their names -/

theorem map_lookup_self (h : (given.map (·.1)).Nodup) :
    (given.map (·.1)).map (List.lookup · given) = given.map (some ·.2) := by
  rw [List.map_map]
  refine List.map_congr_left fun m hm => ?_
  exact (OrderedMap.list_lookup_eq m.1 given).trans ((OrderedMap.lookup_eq_some_iff_mem h).2 hm)

/-! ## Fields -/

theorem mapM_usable (ms : List (String × Value)) :
    (ms.map fun m => (some m.1, m.2)).mapM (fun m : Option String × Value => m.1.map (·, m.2)) = some ms :=
  mapM_map_eq_pure fun _ _ => rfl

theorem fields?_record (names : List String) (ms : List (String × Value)) :
    (record ms).fields? names =
      if ((ms.filter (names.contains ·.1)).map (·.1)).Nodup then
        some (names.map (List.lookup · (ms.filter (names.contains ·.1))))
      else none := by
  unfold record fields?
  simp only [mapM_usable, Option.bind_eq_bind, Option.bind_some]

/-- Every form of a record has the fields of the record. -/
theorem fields?_restates {v : Value} (h : Restates names (record given) v) (hnames : names.Nodup)
    (hsub : (given.map (·.1)).Sublist names) : v.fields? names = some (names.map (List.lookup · given)) := by
  have hnodup : (given.map (·.1)).Nodup := hsub.nodup hnames
  generalize hw : record given = w at h
  cases h with
  | @object given' ms extra hperm hextra =>
    obtain rfl := record_inj hw
    have hgiven : given.filter (names.contains ·.1) = given := by
      refine List.filter_eq_self.2 fun m hm => ?_
      rw [List.contains_iff_mem]
      exact hsub.subset (List.mem_map_of_mem hm)
    have hnone : extra.filter (names.contains ·.1) = [] := by
      refine List.filter_eq_nil_iff.2 fun m hm => ?_
      rw [List.contains_iff_mem]
      exact (hextra m hm).1
    have hknown : (ms.filter (names.contains ·.1)).Perm given := by
      have := hperm.filter (names.contains ·.1)
      rwa [List.filter_append, hgiven, hnone, List.append_nil] at this
    rw [fields?_record, if_pos ((hknown.map (·.1)).nodup_iff.2 hnodup)]
    refine congrArg some (List.map_congr_left fun n _ => ?_)
    rw [OrderedMap.list_lookup_eq, OrderedMap.list_lookup_eq]
    exact OrderedMap.lookup_perm hknown hnodup n
  | @array given' h =>
    obtain rfl := record_inj hw
    have hlen : (given.map (·.2)).length = names.length := by
      rw [← h, List.length_map, List.length_map]
    rw [fields?, if_pos hlen, ← h, map_lookup_self hnodup, List.map_map]
    rfl

/-- The fields of a record that has them all. -/
theorem fields?_of_all {v : Value} (h : Restates names (record given) v) (hnames : names.Nodup)
    (hgiven : given.map (·.1) = names) : v.fields? names = some (given.map (some ·.2)) := by
  subst hgiven
  rw [fields?_restates h hnames (List.Sublist.refl _), map_lookup_self hnames]

/-- An object that has fields has usable names only. -/
theorem exists_record {members : List (Option String × Value)} {fs : List (Option Value)}
    (h : (object members).fields? names = some fs) : ∃ ms, object members = record ms := by
  obtain ⟨ms, hms, -⟩ := Option.bind_eq_some_iff.1 h
  refine ⟨ms, congrArg object ?_⟩
  rw [mapM_eq_some_iff] at hms
  clear h
  induction hms with
  | nil => rfl
  | cons hm _ ih =>
    obtain ⟨n, hn, rfl⟩ := Option.map_eq_some_iff.1 hm
    rw [List.map_cons, ← ih, ← hn]

/-- A value with all the fields that are needed is not faulty. -/
theorem not_faulty {v : Value} {fs : List (Option Value)} (h : v.fields? names = some fs)
    (hgiven : ∀ p ∈ names.zip fs, p.1 ≠ "nextToken" → p.2 ≠ none) : ¬ Faulty names v := by
  intro hfaulty
  cases hfaulty with
  | @twice members n hn hcount =>
    obtain ⟨ms, hms⟩ := exists_record h
    obtain rfl := Value.object.inj hms
    rw [show object _ = record ms from rfl, fields?_record] at h
    obtain ⟨hnodup, -⟩ := Option.ite_none_right_eq_some.1 h
    have hall : (ms.map fun m => (some m.1, m.2)).map (·.1) = (ms.map (·.1)).map some := by
      rw [List.map_map, List.map_map]
      rfl
    have hknown : (ms.filter (names.contains ·.1)).map (·.1) = (ms.map (·.1)).filter (names.contains ·) := by
      rw [List.filter_map]
      rfl
    have hone := List.nodup_iff_count_le_one.1 hnodup n
    rw [hknown, List.count_filter (List.contains_iff_mem.2 hn)] at hone
    rw [hall, List.count_map_of_injective _ _ fun _ _ => Option.some.inj] at hcount
    omega
  | @missing members n hn hneeded hmem =>
    obtain ⟨ms, hms⟩ := exists_record h
    obtain rfl := Value.object.inj hms
    rw [show object _ = record ms from rfl, fields?_record] at h
    obtain ⟨-, h⟩ := Option.ite_none_right_eq_some.1 h
    obtain rfl := Option.some.inj h
    have hnone : (ms.filter (names.contains ·.1)).lookup n = none := by
      refine List.lookup_eq_none_iff.2 fun m hm => bne_iff_ne.2 fun hnm => hmem ?_
      rw [hnm, List.map_map]
      exact List.mem_map.2 ⟨m, (List.mem_filter.1 hm).1, rfl⟩
    refine hgiven (n, none) ?_ hneeded rfl
    rw [← List.map_prod_left_eq_zip, ← hnone]
    exact List.mem_map.2 ⟨n, hn, rfl⟩
  | length hlen =>
    rw [fields?, if_neg hlen] at h
    exact absurd h (by simp)

/-- A member under the name of a field is that field. -/
theorem mem_zip_of_mem {members : List (Option String × Value)} {fs : List (Option Value)}
    (h : (object members).fields? names = some fs) {n : String} (hn : n ∈ names) {v : Value}
    (hmem : (some n, v) ∈ members) : (n, some v) ∈ names.zip fs := by
  obtain ⟨ms, hms⟩ := exists_record h
  obtain rfl := Value.object.inj hms
  rw [show object _ = record ms from rfl, fields?_record] at h
  obtain ⟨hnodup, h⟩ := Option.ite_none_right_eq_some.1 h
  obtain rfl := Option.some.inj h
  obtain ⟨⟨n', v'⟩, hms, hm⟩ := List.mem_map.1 hmem
  obtain ⟨hn', rfl⟩ := Prod.mk.inj hm
  obtain rfl := Option.some.inj hn'
  have hknown := (OrderedMap.lookup_eq_some_iff_mem hnodup).2
    (List.mem_filter.2 ⟨hms, List.contains_iff_mem.2 hn⟩)
  rw [← OrderedMap.list_lookup_eq] at hknown
  rw [← List.map_prod_left_eq_zip]
  exact List.mem_map.2 ⟨n', hn, Prod.ext rfl hknown⟩

/-! ## Values of fields -/

theorem toStamp?_int {n : Int} (h : Stamp.Fits n) : toStamp? (int n) = some n := by
  show (Numeral.ofInt n).toInt?.bind Stamp.fit? = some n
  rw [Numeral.toInt?_ofInt]
  exact Stamp.fit?_eq_some.2 ⟨h, rfl⟩

theorem toDensity?_nat {n : Nat} (h : n ≤ Density.greatest) : toDensity? (nat n) = some n := by
  show (if n ≤ Density.greatest then some n else none) = some n
  exact if_pos h

/-- A kept value gives the names that it gives unkept, and one more by the empty object. -/
theorem toKeptName?_eq_some_iff {v : Value} {s : String} :
    v.toKeptName? = some s ↔ v.toName? = some s ∨ v = object [(some s, object [])] := by
  unfold toKeptName?
  split
  · simp [toName?]
  · next hother => exact ⟨.inl, fun h => h.resolve_right (hother s)⟩

/-- A field that is needed is there where something is read from it. -/
theorem of_required_bind {α β : Type} {read : Value → Option α} {o : Option Value} {f : α → Option β} {b : β}
    (h : (required read o >>= f) = some b) : ∃ v a, o = some v ∧ read v = some a ∧ f a = some b := by
  obtain ⟨a, ha, hf⟩ := Option.bind_eq_some_iff.1 h
  cases o with
  | none => exact absurd ha (by simp [required])
  | some v => exact ⟨v, a, rfl, ha, hf⟩

/-! ## Values without parts -/

theorem Plain.depth_eq {v : Value} (h : v.Plain) : v.depth = 0 := by
  cases h <;> rfl

theorem Plain.isSound {v : Value} (h : v.Plain) : ∀ l ∈ v.lexemes, l.isSound = true := by
  intro l hl
  cases h with
  | null =>
    obtain rfl := List.mem_singleton.1 hl
    rfl
  | truth b =>
    obtain rfl := List.mem_singleton.1 hl
    rfl
  | string s =>
    obtain rfl := List.mem_singleton.1 hl
    rfl
  | int hleast hgreatest =>
    obtain rfl := List.mem_singleton.1 hl
    exact Numeral.isFinite_ofInt hleast hgreatest

/-- An array or an object of values without parts. -/
inductive Flat : Value → Prop
  | array {vs : List Value} (h : ∀ v ∈ vs, v.Plain) : Flat (array vs)
  | record {ms : List (String × Value)} (h : ∀ m ∈ ms, m.2.Plain) : Flat (record ms)

theorem itemDepth_eq {vs : List Value} (h : ∀ v ∈ vs, v.Plain) : itemDepth vs = 0 := by
  induction vs with
  | nil => rfl
  | cons v vs ih =>
    rw [itemDepth, (h v List.mem_cons_self).depth_eq, ih fun w hw => h w (List.mem_cons_of_mem _ hw)]
    rfl

theorem memberDepth_eq {ms : List (String × Value)} (h : ∀ m ∈ ms, m.2.Plain) :
    memberDepth (ms.map fun m => (some m.1, m.2)) = 0 := by
  induction ms with
  | nil => rfl
  | cons m ms ih =>
    rw [List.map_cons, memberDepth, (h m List.mem_cons_self).depth_eq,
      ih fun w hw => h w (List.mem_cons_of_mem _ hw)]
    rfl

theorem Flat.depth_eq {v : Value} (h : v.Flat) : v.depth = 1 := by
  cases h with
  | array h => rw [depth, itemDepth_eq h]
  | record h =>
    unfold Value.record
    rw [depth, memberDepth_eq h]

/-- The lexeme that an array or an object goes on with or ends with, and one more value before the rest. -/
theorem isSound_append (before : List Lexeme) {v : Value} {after : List Lexeme} (hv : v.Plain)
    (hbefore : ∀ l ∈ before, l.isSound = true) (hafter : ∀ l ∈ after, l.isSound = true) :
    ∀ l ∈ before ++ v.lexemes ++ after, l.isSound = true := by
  intro l hl
  rcases List.mem_append.1 hl with hl | hl
  · rcases List.mem_append.1 hl with hl | hl
    · exact hbefore l hl
    · exact hv.isSound l hl
  · exact hafter l hl

theorem isSound_items {vs : List Value} (h : ∀ v ∈ vs, v.Plain) : ∀ l ∈ itemLexemes vs, l.isSound = true := by
  induction vs with
  | nil => simp [itemLexemes, Lexeme.isSound]
  | cons v vs ih =>
    have hrest := ih fun w hw => h w (List.mem_cons_of_mem _ hw)
    exact isSound_append [.comma] (h v List.mem_cons_self) (by simp [Lexeme.isSound]) hrest

theorem isSound_members {ms : List (String × Value)} (h : ∀ m ∈ ms, m.2.Plain) :
    ∀ l ∈ memberLexemes (ms.map fun m => (some m.1, m.2)), l.isSound = true := by
  induction ms with
  | nil => simp [memberLexemes, Lexeme.isSound]
  | cons m ms ih =>
    have hrest := ih fun w hw => h w (List.mem_cons_of_mem _ hw)
    exact isSound_append [.comma, .string (some m.1), .colon] (h m List.mem_cons_self)
      (by simp [Lexeme.isSound]) hrest

theorem Flat.isSound {v : Value} (h : v.Flat) : ∀ l ∈ v.lexemes, l.isSound = true := by
  cases h with
  | @array vs h =>
    rcases vs with _ | ⟨v, vs⟩
    · simp [lexemes, Lexeme.isSound]
    · have hrest := isSound_items fun w hw => h w (List.mem_cons_of_mem _ hw)
      exact isSound_append [.openArray] (h v List.mem_cons_self) (by simp [Lexeme.isSound]) hrest
  | @record ms h =>
    rcases ms with _ | ⟨m, ms⟩
    · simp [Value.record, lexemes, Lexeme.isSound]
    · have hrest := isSound_members fun w hw => h w (List.mem_cons_of_mem _ hw)
      exact isSound_append [.openObject, .string (some m.1), .colon] (h m List.mem_cons_self)
        (by simp [Lexeme.isSound]) hrest

/-- A record of values without parts has only such forms. -/
theorem Restates.flat {v : Value} (h : Restates names (record given) v) (hgiven : ∀ m ∈ given, m.2.Plain) :
    v.Flat := by
  generalize hw : record given = w at h
  cases h with
  | @object given' ms extra hperm hextra =>
    obtain rfl := record_inj hw
    refine .record fun m hm => ?_
    rcases List.mem_append.1 (hperm.mem_iff.1 hm) with hm | hm
    · exact hgiven m hm
    · exact (hextra m hm).2
  | @array given' h =>
    obtain rfl := record_inj hw
    refine .array fun v hv => ?_
    obtain ⟨m, hm, rfl⟩ := List.mem_map.1 hv
    exact hgiven m hm

end Json.Value

end Footage
