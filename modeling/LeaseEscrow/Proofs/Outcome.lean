import LeaseEscrow.Refusal

/-!
# Computations that succeed

What is known once a computation has a result: a sequence has one exactly when its steps have
one after the other, a check when its condition holds.
-/

namespace LeaseEscrow

variable {ε α β : Type}

instance decidableEqExcept [DecidableEq ε] [DecidableEq α] : DecidableEq (Except ε α)
  | .ok a, .ok b => decidable_of_iff (a = b) (by rw [Except.ok.injEq])
  | .error e, .error e' => decidable_of_iff (e = e') (by rw [Except.error.injEq])
  | .ok _, .error _ => .isFalse nofun
  | .error _, .ok _ => .isFalse nofun

theorem bind_eq_ok {x : Except ε α} {f : α → Except ε β} {b : β} :
    (x >>= f) = .ok b ↔ ∃ a, x = .ok a ∧ f a = .ok b := by
  cases x with
  | ok a => simp [bind, Except.bind]
  | error e => simp [bind, Except.bind]

/-- A check has no other result than that it passed. -/
theorem check_bind_eq_ok {x : Except ε Unit} {f : Unit → Except ε β} {b : β} :
    (x >>= f) = .ok b ↔ x = .ok () ∧ f () = .ok b := by
  rw [bind_eq_ok]
  exact ⟨fun ⟨_, h⟩ => h, fun h => ⟨(), h⟩⟩

theorem map_eq_ok {x : Except ε α} {f : α → β} {b : β} :
    (f <$> x) = .ok b ↔ ∃ a, x = .ok a ∧ f a = b := by
  cases x with
  | ok a => simp [Functor.map, Except.map]
  | error e => simp [Functor.map, Except.map]

theorem pure_eq_ok {a b : α} : (pure a : Except ε α) = .ok b ↔ a = b := by
  simp [pure, Except.pure]

theorem throw_eq_ok {e : ε} {b : α} : (throw e : Except ε α) = .ok b ↔ False := by
  simp [throw, throwThe, MonadExceptOf.throw]

theorem liftM_eq_ok {x : Except Refusal α} {a : α} :
    (liftM x : Except Fault α) = .ok a ↔ x = .ok a := by
  cases x with
  | ok b =>
    show (.ok b : Except Fault α) = .ok a ↔ _
    simp
  | error e =>
    show (.error (.refused e) : Except Fault α) = .ok a ↔ _
    simp

theorem liftM_eq_refused {x : Except Refusal α} {cause : Refusal} :
    (liftM x : Except Fault α) = .error (.refused cause) ↔ x = .error cause := by
  cases x with
  | ok b =>
    show (.ok b : Except Fault α) = .error (.refused cause) ↔ _
    simp
  | error e =>
    show (.error (.refused e) : Except Fault α) = .error (.refused cause) ↔ _
    simp

theorem bind_of_ok {x : Except ε α} {f : α → Except ε β} {a : α} (h : x = .ok a) :
    x >>= f = f a := by
  rw [h]
  rfl

theorem refusal_bind_of_ok {x : Except Refusal α} {f : α → Except Fault β} {a : α}
    (h : x = .ok a) : liftM x >>= f = f a := by
  rw [h]
  rfl

theorem refusal_bind_of_error {x : Except Refusal α} {f : α → Except Fault β} {cause : Refusal}
    (h : x = .error cause) : liftM x >>= f = .error (.refused cause) := by
  rw [h]
  rfl

theorem inRange_eq_ok {x : Option α} {a : α} : Fault.inRange x = .ok a ↔ x = some a := by
  cases x <;> simp [Fault.inRange]

theorem Refusal.rephrase_eq_ok {f : Refusal → Refusal} {x : Except Refusal α} {a : α} :
    Refusal.rephrase f x = .ok a ↔ x = .ok a := by
  cases x <;> simp [Refusal.rephrase]

theorem Refusal.rephrase_of_error {f : Refusal → Refusal} {x : Except Refusal α} {cause : Refusal}
    (h : x = .error cause) : Refusal.rephrase f x = .error (f cause) := by
  rw [h]
  rfl

theorem Fault.rephrase_eq_ok {f : Refusal → Refusal} {x : Except Fault α} {a : α} :
    Fault.rephrase f x = .ok a ↔ x = .ok a := by
  rcases x with (_ | _) | _ <;> simp [Fault.rephrase]

/-! ## Computations that stay in range -/

/-- The computation has a result or is refused. -/
def Answered (x : Except Fault α) : Prop := x ≠ .error .outOfRange

theorem Answered.bind {x : Except Fault α} {f : α → Except Fault β} (hx : Answered x)
    (hf : ∀ a, x = .ok a → Answered (f a)) : Answered (x >>= f) := by
  cases x with
  | ok a => exact hf a rfl
  | error e => exact fun h => hx (congrArg Except.error (Except.error.inj h))

theorem Answered.bind_refusal {x : Except Refusal α} {f : α → Except Fault β}
    (hf : ∀ a, x = .ok a → Answered (f a)) : Answered (liftM x >>= f) := by
  cases x with
  | ok a => exact hf a rfl
  | error e => exact nofun

theorem answered_ok (a : α) : Answered (.ok a) := nofun

theorem answered_of_eq_ok {x : Except Fault α} {a : α} (h : x = .ok a) : Answered x :=
  h ▸ answered_ok a

theorem answered_refusal (x : Except Refusal α) : Answered (liftM x) := by
  cases x with
  | ok a => exact answered_ok a
  | error cause => exact nofun

theorem answered_inRange {x : Option α} {a : α} (h : x = some a) : Answered (Fault.inRange x) :=
  answered_of_eq_ok (inRange_eq_ok.2 h)

theorem Answered.refused_of_error {x : Except Fault α} {e : Fault} (hx : Answered x)
    (h : x = .error e) : ∃ cause, e = .refused cause := by
  cases e with
  | refused cause => exact ⟨cause, rfl⟩
  | outOfRange => exact absurd h hx

end LeaseEscrow
