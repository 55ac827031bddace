import Footage.Store.Item

/-!
# Reading attributes back

An attribute that was set is read as it was set, and setting another one does not change it. An
attribute can be read if it is there and of the kind that is asked for. Where several are read one after
the other, the error is that of the first that cannot be read (`bind_eq_error_iff`).
-/

namespace Footage.Item

@[simp] theorem key_set (i : Item) (name : String) (v : Attribute) : (i.set name v).key = i.key := rfl

@[simp] theorem get?_set_self (i : Item) (name : String) (v : Attribute) :
    (i.set name v).attributes.get? name = some v := OrderedMap.get?_insert_self _ _ _

theorem get?_set_of_ne (i : Item) {name other : String} (h : other ≠ name) (v : Attribute) :
    (i.set name v).attributes.get? other = i.attributes.get? other :=
  OrderedMap.get?_insert_of_ne _ h _

theorem number_eq_ok_iff {i : Item} {name : String} {n : Int} :
    i.number name = .ok n ↔ i.attributes.get? name = some (.number n) := by
  unfold number value
  cases i.attributes.get? name with
  | none => simp [bind, Except.bind]
  | some a =>
    cases a with
    | number m => simp [bind, Except.bind, pure, Except.pure]
    | text t => simp [bind, Except.bind, throw, throwThe, MonadExceptOf.throw]

theorem unsigned_eq_ok_iff {i : Item} {name : String} {n : Nat} :
    i.unsigned name = .ok n ↔ i.attributes.get? name = some (.number n) := by
  rw [← number_eq_ok_iff]
  unfold unsigned
  cases i.number name with
  | error f => simp [bind, Except.bind]
  | ok m =>
    cases m with
    | ofNat k =>
      exact ⟨fun h => congrArg (fun j : Nat => Except.ok (j : Int)) (Except.ok.inj h),
        fun h => congrArg Except.ok (Int.ofNat.inj (Except.ok.inj h))⟩
    | negSucc k => simp [bind, Except.bind, throw, throwThe, MonadExceptOf.throw]

theorem text_eq_ok_iff {i : Item} {name s : String} :
    i.text name = .ok s ↔ i.attributes.get? name = some (.text s) := by
  unfold text value
  cases i.attributes.get? name with
  | none => simp [bind, Except.bind]
  | some a =>
    cases a with
    | number m => simp [bind, Except.bind, throw, throwThe, MonadExceptOf.throw]
    | text t => simp [bind, Except.bind, pure, Except.pure]

/-! ## What cannot be read -/

/-- An attribute is there and satisfies `Usable`. -/
def Has (i : Item) (name : String) (Usable : Attribute → Prop) : Prop :=
  ∃ a, i.attributes.get? name = some a ∧ Usable a

/-- An attribute that has to satisfy `Usable` is missing or does not. -/
def Unusable (i : Item) (name : String) (Usable : Attribute → Prop) (f : AttributeError) : Prop :=
  i.attributes.get? name = none ∧ f = .missing i.key name ∨
    (∃ a, i.attributes.get? name = some a ∧ ¬ Usable a) ∧ f = .invalid i.key name

/-- The first of some attributes that is missing or not as it has to be. -/
def FirstUnusable (i : Item) (f : AttributeError) : List (String × (Attribute → Prop)) → Prop
  | [] => False
  | (name, Usable) :: rest => i.Unusable name Usable f ∨ i.Has name Usable ∧ i.FirstUnusable f rest

def IsNumber (a : Attribute) : Prop := ∃ n : Int, a = .number n

/-- A number that is not negative. -/
def IsUnsigned (a : Attribute) : Prop := ∃ n : Nat, a = .number n

variable {i : Item} {name : String} {Usable : Attribute → Prop} {f : AttributeError}

theorem Unusable.not_has (h : i.Unusable name Usable f) : ¬ i.Has name Usable := by
  rintro ⟨a, ha, hu⟩
  rcases h with ⟨hnone, -⟩ | ⟨⟨b, hb, hno⟩, -⟩
  · exact absurd (ha.symm.trans hnone) (by simp)
  · obtain rfl := Option.some.inj (ha.symm.trans hb)
    exact hno hu

theorem exists_unusable (h : ¬ i.Has name Usable) : ∃ f, i.Unusable name Usable f := by
  cases ha : i.attributes.get? name with
  | none => exact ⟨_, .inl ⟨ha, rfl⟩⟩
  | some a => exact ⟨_, .inr ⟨⟨a, ha, fun hu => h ⟨a, ha, hu⟩⟩, rfl⟩⟩

theorem number_eq_error_iff : i.number name = .error f ↔ i.Unusable name IsNumber f := by
  unfold number value Unusable
  cases i.attributes.get? name with
  | none => simp [bind, Except.bind, eq_comm]
  | some a =>
    cases a with
    | number m => simp [bind, Except.bind, pure, Except.pure, IsNumber]
    | text t => simp [bind, Except.bind, throw, throwThe, MonadExceptOf.throw, IsNumber, eq_comm]

theorem unsigned_eq_error_iff : i.unsigned name = .error f ↔ i.Unusable name IsUnsigned f := by
  unfold unsigned number value Unusable
  cases i.attributes.get? name with
  | none => simp [bind, Except.bind, eq_comm]
  | some a =>
    cases a with
    | number m =>
      cases m with
      | ofNat k =>
        have hk : IsUnsigned (.number (k : Int)) := ⟨k, rfl⟩
        simp [bind, Except.bind, pure, Except.pure, hk]
      | negSucc k =>
        simp [bind, Except.bind, pure, Except.pure, throw, throwThe, MonadExceptOf.throw, IsUnsigned,
          eq_comm]
    | text t => simp [bind, Except.bind, throw, throwThe, MonadExceptOf.throw, IsUnsigned, eq_comm]

/-- An attribute is read, and then others. -/
theorem bind_eq_error_iff {α β : Type} {x : Except AttributeError α} {g : α → Except AttributeError β}
    {rest : List (String × (Attribute → Prop))}
    (hx : ∀ {f}, x = .error f ↔ i.Unusable name Usable f)
    (hg : ∀ a, g a = .error f ↔ i.FirstUnusable f rest) :
    (x >>= g) = .error f ↔ i.FirstUnusable f ((name, Usable) :: rest) := by
  cases x with
  | error e =>
    have hno : ¬ i.Has name Usable := (hx.1 rfl).not_has
    rw [FirstUnusable, ← hx, Except.error.injEq]
    show Except.error e = Except.error f ↔ _
    rw [Except.error.injEq]
    exact ⟨.inl, fun h => h.resolve_right fun h => hno h.1⟩
  | ok a =>
    have hhas : i.Has name Usable := Classical.byContradiction fun h => by
      obtain ⟨e, he⟩ := exists_unusable h
      exact absurd (hx.2 he) (by simp)
    rw [FirstUnusable, ← hx]
    refine (hg a).trans ⟨fun h => .inr ⟨hhas, h⟩, fun h => ?_⟩
    exact (h.resolve_left (by simp)).2

end Footage.Item
