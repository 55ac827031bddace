import Footage.Desk

/-!
# How a task ends

`Task.Ends` says of the outcome of a task that its value satisfies `Q` or its error satisfies `E`, and
that the state satisfies `I` either way. What is known of the parts of a task carries over to the
whole (`Ends.bind`). A check has no state, so a check of several steps is taken apart by
`bind_eq_ok`.
-/

namespace Footage

theorem bind_eq_ok {ε α β : Type} {x : Except ε α} {f : α → Except ε β} {b : β} :
    (x >>= f) = .ok b ↔ ∃ a, x = .ok a ∧ f a = .ok b := by
  cases x with
  | error e =>
    exact ⟨fun h => absurd h (by simp [bind, Except.bind]), fun ⟨_, h, _⟩ => absurd h (by simp)⟩
  | ok a => exact ⟨fun h => ⟨a, rfl, h⟩, fun ⟨_, ha, h⟩ => Except.ok.inj ha ▸ h⟩

/-- What holds where there is a value and not where there is an error says that there is a value. -/
theorem exists_ok_iff {ε α : Type} {x : Except ε α} {c : Prop} (hok : ∀ a, x = .ok a → c)
    (herror : ∀ e, x = .error e → ¬ c) : (∃ a, x = .ok a) ↔ c := by
  cases x with
  | error e => exact ⟨fun ⟨_, h⟩ => absurd h (by simp), fun hc => absurd hc (herror e rfl)⟩
  | ok a => exact ⟨fun _ => hok a rfl, fun _ => ⟨a, rfl⟩⟩

@[simp] theorem mapError_ok {ε ε' α : Type} (f : ε → ε') (a : α) :
    (Except.ok a : Except ε α).mapError f = .ok a := rfl

@[simp] theorem mapError_error {ε ε' α : Type} (f : ε → ε') (e : ε) :
    (Except.error e : Except ε α).mapError f = .error (f e) := rfl

theorem eq_ok_of_toOption {ε α : Type} {x : Except ε α} {a : α} (h : x.toOption = some a) :
    x = .ok a := by
  cases x with
  | error e => exact absurd h (by simp [Except.toOption])
  | ok b => exact congrArg _ (Option.some.inj h)

namespace Task

variable {σ ε α β : Type} {I : σ → Prop} {E : ε → Prop} {Q : α → Prop} {R : β → Prop}

/-- The state satisfies `I`, and the value `Q` or the error `E`. -/
def Ends (I : σ → Prop) (E : ε → Prop) (Q : α → Prop) (outcome : Except ε α × σ) : Prop :=
  I outcome.2 ∧ match outcome.1 with
    | .ok a => Q a
    | .error e => E e

/-- A value of a whole comes from a value of its first part. -/
theorem bind_fst_eq_ok {t : Task σ ε α} {f : α → Task σ ε β} {s : σ} {b : β} :
    ((t >>= f) s).1 = .ok b ↔ ∃ a s', t s = (.ok a, s') ∧ (f a s').1 = .ok b := by
  rw [bind_apply]
  rcases t s with ⟨e | a, s'⟩
  · exact ⟨fun h => absurd h (by simp), fun ⟨_, _, h, _⟩ => absurd (Prod.mk.inj h).1 (by simp)⟩
  · refine ⟨fun h => ⟨a, s', rfl, h⟩, fun ⟨_, _, h, hf⟩ => ?_⟩
    obtain ⟨ha, rfl⟩ := Prod.mk.inj h
    obtain rfl := Except.ok.inj ha
    exact hf

theorem Ends.pure {a : α} {s : σ} (hI : I s) (hQ : Q a) : Ends I E Q ((pure a : Task σ ε α) s) :=
  ⟨hI, hQ⟩

theorem Ends.bind {t : Task σ ε α} {f : α → Task σ ε β} {s : σ} (h : Ends I E Q (t s))
    (hf : ∀ a s', I s' → Q a → Ends I E R (f a s')) : Ends I E R ((t >>= f) s) := by
  rw [bind_apply]
  obtain ⟨hI, hQ⟩ := h
  rcases ht : t s with ⟨r, s'⟩
  rw [ht] at hI hQ
  cases r with
  | ok a => exact hf a s' hI hQ
  | error e => exact ⟨hI, hQ⟩

theorem Ends.imp {E' : ε → Prop} {Q' : α → Prop} {outcome : Except ε α × σ} (h : Ends I E Q outcome)
    (hE : ∀ e, E e → E' e) (hQ : ∀ a, Q a → Q' a) : Ends I E' Q' outcome := by
  obtain ⟨r, s⟩ := outcome
  obtain ⟨hI, h⟩ := h
  cases r with
  | ok a => exact ⟨hI, hQ a h⟩
  | error e => exact ⟨hI, hE e h⟩

/-- What cannot fail ends with a value. -/
theorem Ends.exists_ok {outcome : Except ε α × σ} (h : Ends I E Q outcome) (hE : ∀ e, ¬ E e) :
    ∃ a s, outcome = (.ok a, s) ∧ I s ∧ Q a := by
  obtain ⟨r, s⟩ := outcome
  obtain ⟨hI, h⟩ := h
  cases r with
  | ok a => exact ⟨a, s, rfl, hI, h⟩
  | error e => exact absurd h (hE e)

end Task

namespace Desk

theorem of_check_eq_ok {σ ε α : Type} {wrap : ε → Failure} {r : Except ε α} {desk : Desk σ} {a : α}
    (h : (check wrap r desk).1 = .ok a) : r = .ok a := by
  cases r with
  | error e => exact absurd h (by simp [check, Task.throw_apply])
  | ok b => exact congrArg Except.ok (Except.ok.inj h)

variable {σ α : Type} {I : σ → Prop} {E : StoreError → Prop} {F : Failure → Prop} {Q : α → Prop}

theorem ends_onStore {t : StoreTask σ α} {desk : Desk σ} (h : Task.Ends I E Q (t desk.store))
    (hF : ∀ e, E e → F (.store e)) : Task.Ends (fun d : Desk σ => I d.store) F Q (onStore t desk) := by
  unfold onStore
  rcases ht : t desk.store with ⟨r, s⟩
  rw [ht] at h
  cases r with
  | ok a => exact ⟨h.1, h.2⟩
  | error e => exact ⟨h.1, hF e h.2⟩

/-- A check changes nothing. -/
theorem ends_check {ε : Type} {wrap : ε → Failure} {r : Except ε α} {desk : Desk σ} (hI : I desk.store)
    (hF : ∀ e, r = .error e → F (wrap e)) :
    Task.Ends (fun d : Desk σ => I d.store) F (r = .ok ·) (check wrap r desk) := by
  cases r with
  | error e => exact ⟨hI, hF e rfl⟩
  | ok a => exact ⟨hI, rfl⟩

end Desk

end Footage
