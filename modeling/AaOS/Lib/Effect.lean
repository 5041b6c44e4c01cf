import Mathlib.Order.Defs.Unbundled

/-!
# Programs with state and errors

A program of type `Eff ε σ α` starts in a state of type `σ` and ends in a state, with a result or
an error; the changes before an error remain.  A program is stable for a relation when the state it
starts in is related to the state it ends in; stability for a preorder is kept by sequencing.
-/

open MonadExcept

/-! ### Results -/

namespace Except

variable {ε ε' α β : Type}

theorem bind_eq_ok_iff {x : Except ε α} {f : α → Except ε β} {b : β} :
  x >>= f = .ok b ↔ ∃ a, x = .ok a ∧ f a = .ok b
  := by
  rcases x with e | a
  · constructor
    · rintro ⟨⟩
    · rintro ⟨a, ⟨⟩, -⟩
  · constructor
    · intro hok
      exact ⟨a, rfl, hok⟩
    · rintro ⟨a', ⟨⟩, hok⟩
      apply hok

@[simp]
theorem mapError_ok (f : ε → ε') (a : α) : (ok a : Except ε α).mapError f = ok a := rfl

@[simp]
theorem mapError_error (f : ε → ε') (e : ε) : (error e : Except ε α).mapError f = error (f e) := rfl

theorem mapError_eq_ok_iff {x : Except ε α} {f : ε → ε'} {a : α} :
  x.mapError f = .ok a ↔ x = .ok a
  := by
  rcases x with e | a' <;> simp

end Except

/-! ### Programs -/

/-- Programs with state `σ` and errors `ε`. -/
abbrev Eff (ε σ α : Type) : Type := ExceptT ε (StateM σ) α

namespace Eff

variable {ε σ α β : Type}

/-- Run a program from a state. -/
def exec (m : Eff ε σ α) (s : σ) : Except ε α × σ := StateT.run (ExceptT.run m) s

/-- The program that replaces the state and returns a result or an error. -/
def ofStep (step : σ → Except ε α × σ) : Eff ε σ α := ExceptT.mk (fun s => step s)

def update (f : σ → σ) : Eff ε σ Unit := ofStep (fun s => (.ok (), f s))

def query (f : σ → α) : Eff ε σ α := ofStep (fun s => (.ok (f s), s))

/-- The program that fails with `e` when there is no value. -/
def require (a : Option α) (e : ε) : Eff ε σ α :=
  match a with
  | some a => pure a
  | none => throw e

/-- The program that fails with `e` when the condition holds. -/
def refuseIf (condition : Bool) (e : ε) : Eff ε σ Unit :=
  if condition then throw e else pure ()

/-- The program that fails when there is an error. -/
def check (e : Option ε) : Eff ε σ Unit :=
  match e with
  | some e => throw e
  | none => pure ()

@[simp]
theorem exec_pure (a : α) (s : σ) :
  exec (pure a : Eff ε σ α) s = (.ok a, s)
  := rfl

@[simp]
theorem exec_throw (e : ε) (s : σ) :
  exec (throw e : Eff ε σ α) s = (.error e, s)
  := rfl

@[simp]
theorem exec_ofStep (step : σ → Except ε α × σ) (s : σ) :
  exec (ofStep step) s = step s
  := rfl

theorem exec_bind (m : Eff ε σ α) (f : α → Eff ε σ β) (s : σ) :
  exec (m >>= f) s
    = match exec m s with
      | (.ok a, t) => exec (f a) t
      | (.error e, t) => (.error e, t)
  := by
  unfold exec ExceptT.run StateT.run
  simp only [bind, ExceptT.bind, ExceptT.mk, StateT.bind, ExceptT.bindCont]
  cases m s with
  | mk result t =>
    cases result with
    | error e => rfl
    | ok a => rfl

variable {m : Eff ε σ α} {f : α → Eff ε σ β} {s t : σ}

theorem exec_bind_of_ok {a : α} (h : exec m s = (.ok a, t)) :
  exec (m >>= f) s = exec (f a) t
  := by
  rw [exec_bind, h]

theorem exec_bind_of_error {e : ε} (h : exec m s = (.error e, t)) :
  exec (m >>= f) s = (.error e, t)
  := by
  rw [exec_bind, h]

@[simp]
theorem exec_require_some (a : α) (e : ε) (s : σ) :
  exec (require (some a) e) s = (.ok a, s)
  := rfl

@[simp]
theorem exec_require_none (e : ε) (s : σ) :
  exec (require (none : Option α) e) s = (.error e, s)
  := rfl

@[simp]
theorem exec_refuseIf_false (e : ε) (s : σ) :
  exec (refuseIf false e) s = (.ok (), s)
  := rfl

@[simp]
theorem exec_refuseIf_true (e : ε) (s : σ) :
  exec (refuseIf true e) s = (.error e, s)
  := rfl

/-! ### Success -/

theorem exec_bind_eq_ok_iff {u : σ} {b : β} :
  exec (m >>= f) s = (.ok b, u) ↔ ∃ a t, exec m s = (.ok a, t) ∧ exec (f a) t = (.ok b, u)
  := by
  rw [exec_bind]
  rcases exec m s with ⟨e | a, t⟩
  · simp
  · constructor
    · intro hok
      exact ⟨a, t, rfl, hok⟩
    · rintro ⟨a', t', heq, hok⟩
      cases heq
      apply hok

theorem exec_refuseIf_eq_ok_iff {condition : Bool} {e : ε} {u : Unit} :
  exec (refuseIf condition e) s = (.ok u, t) ↔ condition = false ∧ t = s
  := by
  cases condition <;> simp [eq_comm]

theorem exec_check_eq_ok_iff {e : Option ε} {u : Unit} :
  exec (check e) s = (.ok u, t) ↔ e = none ∧ t = s
  := by
  cases e <;> simp [check, eq_comm]

/-! ### Stability -/

/-- The program relates the state it starts in to the state it ends in. -/
def Stable (R : σ → σ → Prop) (m : Eff ε σ α) : Prop := ∀ s, R s (exec m s).2

namespace Stable

variable {R : σ → σ → Prop}

theorem ofStep {step : σ → Except ε α × σ} (h : ∀ s, R s (step s).2) :
  Stable R (ofStep step)
  := h

theorem bind [IsTrans σ R] {m : Eff ε σ α} {f : α → Eff ε σ β} (hm : Stable R m)
    (hf : ∀ a, Stable R (f a)) :
  Stable R (m >>= f)
  := by
  intro s
  have hs := hm s
  rcases h : exec m s with ⟨e | a, t⟩
  · rw [h] at hs
    rwa [exec_bind_of_error h]
  · rw [h] at hs
    rw [exec_bind_of_ok h]
    exact trans_of R hs (hf a t)

variable [Std.Refl R]

theorem pure (a : α) :
  Stable R (Pure.pure a : Eff ε σ α)
  := fun s => refl_of R s

theorem throw (e : ε) :
  Stable R (throw e : Eff ε σ α)
  := fun s => refl_of R s

theorem require (a : Option α) (e : ε) :
  Stable R (Eff.require a e)
  := by
  cases a with
  | none => apply Stable.throw
  | some a => apply Stable.pure

theorem refuseIf (condition : Bool) (e : ε) :
  Stable R (Eff.refuseIf condition e)
  := by
  cases condition with
  | false => apply Stable.pure
  | true => apply Stable.throw

theorem check (e : Option ε) :
  Stable R (Eff.check e)
  := by
  cases e with
  | none => apply Stable.pure
  | some e => apply Stable.throw

theorem query (f : σ → α) :
  Stable R (Eff.query f : Eff ε σ α)
  := fun s => refl_of R s

end Stable

/-! ### Errors -/

def FailsWith (p : ε → Prop) (m : Eff ε σ α) : Prop :=
  ∀ s e, (exec m s).1 = .error e → p e

namespace FailsWith

variable {p : ε → Prop}

theorem pure (a : α) :
  FailsWith p (Pure.pure a : Eff ε σ α)
  := by
  intro s e h
  cases h

theorem ofStep {step : σ → Except ε α × σ} (h : ∀ s e, (step s).1 = .error e → p e) :
  FailsWith p (Eff.ofStep step)
  := h

theorem check {e : Option ε} (h : ∀ e' ∈ e, p e') :
  FailsWith p (Eff.check e : Eff ε σ Unit)
  := by
  cases e with
  | none => apply FailsWith.pure
  | some e =>
    intro s e' he'
    obtain rfl : e = e' := by simpa [Eff.check] using he'
    exact h e rfl

theorem update (f : σ → σ) :
  FailsWith p (Eff.update f)
  := by
  intro s e h
  cases h

theorem bind {m : Eff ε σ α} {f : α → Eff ε σ β} (hm : FailsWith p m)
    (hf : ∀ a, FailsWith p (f a)) :
  FailsWith p (m >>= f)
  := by
  intro s e h
  rcases hexec : exec m s with ⟨e' | a, t⟩
  · rw [exec_bind_of_error hexec] at h
    apply hm s
    rw [hexec]
    simpa using h
  · rw [exec_bind_of_ok hexec] at h
    exact hf a t e h

end FailsWith

/-! ### Results -/

/-- The results of the program satisfy `P`. -/
def Returns (P : α → Prop) (m : Eff ε σ α) : Prop :=
  ∀ s a, (exec m s).1 = .ok a → P a

namespace Returns

variable {P : α → Prop} {Q : β → Prop}

theorem pure {a : α} (h : P a) :
  Returns P (Pure.pure a : Eff ε σ α)
  := by
  intro s a' ha'
  cases ha'
  apply h

theorem throw (e : ε) :
  Returns P (throw e : Eff ε σ α)
  := by
  intro s a h
  cases h

theorem require (a : Option α) (e : ε) :
  Returns (fun a' => a = some a') (Eff.require a e : Eff ε σ α)
  := by
  cases a with
  | none => apply Returns.throw
  | some a =>
    refine Returns.pure ?_
    rfl

theorem refuseIf (condition : Bool) (e : ε) :
  Returns (fun _ => condition = false) (Eff.refuseIf condition e : Eff ε σ Unit)
  := by
  cases condition with
  | true => apply Returns.throw
  | false =>
    refine Returns.pure ?_
    rfl

variable {m : Eff ε σ α}

theorem bind {f : α → Eff ε σ β} (hm : Returns P m) (hf : ∀ a, P a → Returns Q (f a)) :
  Returns Q (m >>= f)
  := by
  intro s b h
  rcases hexec : exec m s with ⟨e | a, t⟩
  · rw [exec_bind_of_error hexec] at h
    cases h
  · rw [exec_bind_of_ok hexec] at h
    apply hf a _ t b h
    apply hm s a
    rw [hexec]

theorem after {f : α → Eff ε σ β} (hf : ∀ a, Returns Q (f a)) :
  Returns Q (m >>= f)
  := Returns.bind (fun _ _ _ => True.intro) fun a _ => hf a

end Returns

end Eff
