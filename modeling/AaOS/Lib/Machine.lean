import Mathlib.Data.List.Induction
import AaOS.Lib.History

/-!
# Machines

A machine has a step function on its states, and a run is the list of its inputs.  When a property
holds after a step exactly when the step meets a condition, it holds throughout a run exactly when
every step meets the condition.  Steps that are hidden from an observer can be left out of a run.
-/

open List

namespace Machine

variable {σ ι : Type} (step : σ → ι → σ)

/-- The state that a list of inputs leads to. -/
def after (s : σ) (inputs : List ι) : σ := inputs.foldl step s

/-- The property holds of every state of a run. -/
def Always (P : σ → Prop) (s : σ) (inputs : List ι) : Prop :=
  ∀ before rest, inputs = before ++ rest → P (after step s before)

/-- The condition holds of every step of a run. -/
def EveryStep (C : σ → ι → Prop) (s : σ) (inputs : List ι) : Prop :=
  ∀ before input rest, inputs = before ++ input :: rest → C (after step s before) input

variable {step} {P I : σ → Prop} {C : σ → ι → Prop} {s : σ} {inputs : List ι} {input : ι}

theorem after_concat : after step s (inputs ++ [input]) = step (after step s inputs) input := by
  rw [after, foldl_append]
  rfl

variable {rest : List ι}

theorem after_append :
  after step s (inputs ++ rest) = after step (after step s inputs) rest
  := by
  rw [after, foldl_append]
  rfl

theorem EveryStep.append_right (hevery : EveryStep step C s (inputs ++ rest)) :
  EveryStep step C (after step s inputs) rest
  := by
  rintro before input' rest' rfl
  rw [← after_append]
  apply hevery
  rw [append_assoc]

theorem EveryStep.of_append (hevery : EveryStep step C s (inputs ++ rest)) :
  EveryStep step C s inputs
  := by
  intro before input' rest' heq
  apply hevery before input' (rest' ++ rest)
  rw [heq, append_assoc, cons_append]

theorem EveryStep.invariant (hevery : EveryStep step C s inputs)
    (hkeeps : ∀ s input, I s → C s input → I (step s input)) (hs : I s) :
  I (after step s inputs)
  := by
  induction inputs using reverseRecOn with
  | nil => apply hs
  | append_singleton inputs input ih =>
    rw [after_concat]
    apply hkeeps _ _ (ih hevery.of_append)
    apply hevery inputs input [] rfl

/-- When each step uses up some of `f`, or is paid for by `g`, a run is no longer than that. -/
theorem EveryStep.length_add_le {f g : σ → Nat} (hevery : EveryStep step C s inputs)
    (hpays : ∀ s input, C s input → f (step s input) + g s < f s + g (step s input)) :
  inputs.length + f (after step s inputs) + g s ≤ f s + g (after step s inputs)
  := by
  induction inputs using reverseRecOn with
  | nil => simp [after]
  | append_singleton inputs input ih =>
    have hbef := ih hevery.of_append
    have hstep := hpays _ _ (hevery inputs input [] rfl)
    rw [after_concat, length_append, length_singleton]
    omega

theorem invariant_after (hkeeps : ∀ s input, I s → I (step s input)) (hs : I s) (inputs : List ι) :
  I (after step s inputs)
  := by
  have hevery : EveryStep step (fun _ _ => True) s inputs := fun _ _ _ _ => trivial
  apply hevery.invariant _ hs
  intro s input hI _
  apply hkeeps s input hI

theorem EveryStep.always (hevery : EveryStep step C s inputs)
    (hkeeps : ∀ s input, I s → C s input → I (step s input)) (hs : I s) :
  Always step I s inputs
  := by
  rintro before rest rfl
  apply hevery.of_append.invariant hkeeps hs

theorem everyStep_of_forall_mem {C : ι → Prop} (hall : ∀ input ∈ inputs, C input) :
  EveryStep step (fun _ input => C input) s inputs
  := by
  rintro before input rest rfl
  apply hall
  simp

theorem everyStep_nil : EveryStep step C s [] := by
  intro before input rest heq
  cases before <;> cases heq

theorem everyStep_cons :
  EveryStep step C s (input :: inputs) ↔ C s input ∧ EveryStep step C (step s input) inputs
  := by
  constructor
  · intro hevery
    constructor
    · apply hevery [] input inputs rfl
    · intro before input' rest heq
      apply hevery (input :: before) input' rest
      rw [heq, cons_append]
  · rintro ⟨hfirst, hevery⟩ before input' rest heq
    cases before with
    | nil =>
      cases heq
      apply hfirst
    | cons _ before =>
      cases heq
      apply hevery before input' rest rfl

theorem EveryStep.append (hinput : EveryStep step C s inputs)
    (hrest : EveryStep step C (after step s inputs) rest) :
  EveryStep step C s (inputs ++ rest)
  := by
  induction inputs generalizing s with
  | nil => apply hrest
  | cons input inputs ih =>
    rw [everyStep_cons] at hinput
    rw [cons_append, everyStep_cons]
    exact ⟨hinput.1, ih hinput.2 hrest⟩

theorem EveryStep.and {D : σ → ι → Prop} (hC : EveryStep step C s inputs)
    (hD : EveryStep step D s inputs) :
  EveryStep step (fun s input => C s input ∧ D s input) s inputs
  := by
  intro before input rest heq
  exact ⟨hC before input rest heq, hD before input rest heq⟩

/-- In a run with steps of a kind, a property that an invariant gives holds throughout exactly when
every step meets the condition. -/
theorem always_iff_everyStep_of_everyStep {D : σ → ι → Prop} (hkind : EveryStep step D s inputs)
    (hP : ∀ s, I s → P s) (hkeeps : ∀ s input, D s input → I s → C s input → I (step s input))
    (hcon : ∀ s input, D s input → I s → P (step s input) → C s input) (hs : I s) :
  Always step P s inputs ↔ EveryStep step C s inputs
  := by
  have hkeeps' : ∀ s input, I s → D s input ∧ C s input → I (step s input) :=
    fun s input hI hDC => hkeeps s input hDC.1 hI hDC.2
  constructor
  · intro halways
    induction inputs using reverseRecOn with
    | nil => apply everyStep_nil
    | append_singleton inputs input ih =>
      have hevery : EveryStep step C s inputs := by
        apply ih hkind.of_append
        intro before rest heq
        apply halways before (rest ++ [input])
        rw [heq, append_assoc]
      intro before input' rest heq
      obtain ⟨rfl, rfl, -⟩ | ⟨rest', -, heq'⟩ := concat_eq_append_cons heq
      · have hlast := halways (inputs ++ [input]) [] (append_nil _).symm
        rw [after_concat] at hlast
        apply hcon _ _ (hkind inputs input [] rfl) _ hlast
        apply (hkind.of_append.and hevery).invariant hkeeps' hs
      · apply hevery before input' rest' heq'
  · intro hevery before rest heq
    apply hP
    apply (hkind.and hevery).always hkeeps' hs before rest heq

/-- In a run with inputs of a kind, a property that an invariant gives holds throughout exactly when
every step meets the condition. -/
theorem always_iff_everyStep_of_forall_mem {D : ι → Prop} (hinput : ∀ input ∈ inputs, D input)
    (hP : ∀ s, I s → P s) (hkeeps : ∀ s input, D input → I s → C s input → I (step s input))
    (hcon : ∀ s input, D input → I s → P (step s input) → C s input) (hs : I s) :
  Always step P s inputs ↔ EveryStep step C s inputs
  := always_iff_everyStep_of_everyStep (everyStep_of_forall_mem hinput) hP hkeeps hcon hs

/-- A property that an invariant gives holds throughout exactly when every step meets the condition.
-/
theorem always_iff_everyStep
    (hP : ∀ s, I s → P s) (hkeeps : ∀ s input, I s → C s input → I (step s input))
    (hcon : ∀ s input, I s → P (step s input) → C s input) (hs : I s) :
  Always step P s inputs ↔ EveryStep step C s inputs
  := by
  apply always_iff_everyStep_of_forall_mem (D := fun _ => True) (fun _ _ => trivial) hP
  · intro s input _
    apply hkeeps s input
  · intro s input _
    apply hcon s input
  · apply hs

/-- When every step keeps an invariant, under which a step keeps a property exactly when it meets
the condition, the property holds throughout exactly when every step meets the condition. -/
theorem always_iff_everyStep_of_invariant (hkeeps : ∀ s input, I s → I (step s input))
    (hstep : ∀ s input, I s → P s → (P (step s input) ↔ C s input)) (hI : I s) (hP : P s) :
  Always step P s inputs ↔ EveryStep step C s inputs
  := by
  apply always_iff_everyStep (I := fun s => I s ∧ P s)
  · rintro s ⟨-, hP⟩
    apply hP
  · rintro s input ⟨hI, hP⟩ hcon
    exact ⟨hkeeps s input hI, (hstep s input hI hP).mpr hcon⟩
  · rintro s input ⟨hI, hP⟩ hafter
    apply (hstep s input hI hP).mp hafter
  · exact ⟨hI, hP⟩

/-! ### Hidden steps -/

variable (step) in
def view (hidden : σ → ι → Bool) : σ → List ι → List ι
  | _, [] => []
  | s, input :: inputs =>
    if hidden s input then view hidden (step s input) inputs
    else input :: view hidden (step s input) inputs

variable {hidden : σ → ι → Bool} {R : σ → σ → Prop} {t : σ}

theorem EveryStep.related
    (hevery : EveryStep step C s inputs)
    (hhid : ∀ s t input, R s t → C s input → hidden s input = true → R (step s input) t)
    (hshown : ∀ s t input, R s t → C s input → hidden s input = false →
      R (step s input) (step t input))
    (hR : R s t) :
  R (after step s inputs) (after step t (view step hidden s inputs))
  := by
  induction inputs generalizing s t with
  | nil => apply hR
  | cons input inputs ih =>
    obtain ⟨hC, hevery⟩ := everyStep_cons.mp hevery
    unfold view
    split_ifs with h
    · apply ih hevery
      apply hhid s t input hR hC h
    · apply ih hevery
      apply hshown s t input hR hC
      simpa using h

theorem EveryStep.view_view
    (hevery : EveryStep step C s inputs)
    (hhid : ∀ s t input, R s t → C s input → hidden s input = true → R (step s input) t)
    (hshown : ∀ s t input, R s t → C s input → hidden s input = false →
      R (step s input) (step t input) ∧ hidden t input = false)
    (hR : R s t) :
  view step hidden t (view step hidden s inputs) = view step hidden s inputs
  := by
  induction inputs generalizing s t with
  | nil => rfl
  | cons input inputs ih =>
    obtain ⟨hC, hevery⟩ := everyStep_cons.mp hevery
    rw [view]
    split_ifs with h
    · apply ih hevery
      apply hhid s t input hR hC h
    · obtain ⟨hR', hshown'⟩ := hshown s t input hR hC (by simpa using h)
      rw [view, hshown', if_neg Bool.false_ne_true, ih hevery hR']

end Machine
