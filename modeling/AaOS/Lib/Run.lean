import AaOS.Lib.History

/-!
# Runs of a transition system

A run is recorded by the list of its events and the state it leads to; which steps are possible may
depend on the events so far.  An invariant holds of every run when it holds at the start and every
step keeps it.
-/

/-- The state `s` is reached from `init` with the given events. -/
inductive Run {σ ε : Type} (Step : List ε → σ → ε → σ → Prop) (init : σ) :
    List ε → σ → Prop
  | nil : Run Step init [] init
  | snoc {trace s s' e} :
      Run Step init trace s → Step trace s e s' → Run Step init (trace ++ [e]) s'

namespace Run

variable {σ ε : Type} {Step : List ε → σ → ε → σ → Prop} {init s : σ} {trace : List ε}

theorem invariant {Inv : List ε → σ → Prop} (hinit : Inv [] init)
    (hstep : ∀ trace s e s', Inv trace s → Step trace s e s' → Inv (trace ++ [e]) s')
    (hrun : Run Step init trace s) :
  Inv trace s
  := by
  induction hrun with
  | nil => apply hinit
  | snoc _ hlast ih => apply hstep _ _ _ _ ih hlast

theorem exists_step
    {before after : List ε} {e : ε} (hrun : Run Step init (before ++ e :: after) s) :
  ∃ s₁ s₂, Run Step init before s₁ ∧ Step before s₁ e s₂
  := by
  generalize htrace : before ++ e :: after = trace at hrun
  induction hrun generalizing after with
  | nil => simp at htrace
  | @snoc trace s s' e' hrun hlast ih =>
    obtain ⟨rfl, rfl, -⟩ | ⟨after', -, rfl⟩ := concat_eq_append_cons htrace.symm
    · use s, s'
    · apply ih rfl

end Run
