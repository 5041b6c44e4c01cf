import Mathlib.Data.List.Basic

/-!
# Dialogues

A dialogue is a loop that asks a question in each turn and is given an answer, on which it goes on
or ends with a result.  A run heeds a signal when no loud event follows the signal and the result,
if there is one, is fine; this is so exactly when each turn with the signal is the last.  Two
dialogues end alike as long as their turns agree.
-/

open List

/-- What follows a turn of a dialogue: a further turn, or the end. -/
inductive Turn (σ ρ : Type) where
  | next (s : σ)
  | done (r : ρ)

/-- The state for a further turn, or the result, has a property. -/
def Turn.Satisfies {σ ρ : Type} (P : σ → Prop) (Q : ρ → Prop) : Turn σ ρ → Prop
  | .next s => P s
  | .done r => Q r

/-- A dialogue with states `σ`, answers `α`, events `ε` and results `ρ`. -/
structure Dialogue (σ α ε ρ : Type) where
  ask : σ → ε
  reply : σ → α → List ε × Turn σ ρ

namespace Dialogue

variable {σ α ε ρ : Type}

/-- The events and the result of a dialogue with the given answers. -/
def run (d : Dialogue σ α ε ρ) : σ → List α → List ε × Option ρ
  | s, [] => ([d.ask s], none)
  | s, a :: answers =>
    match d.reply s a with
    | (events, .done r) => (d.ask s :: events, some r)
    | (events, .next s') =>
      let rest := d.run s' answers
      (d.ask s :: (events ++ rest.1), rest.2)

variable {d : Dialogue σ α ε ρ} {s : σ} {answers : List α}

theorem isSome_run_of_lt (measure : σ → Nat)
    (hlt : ∀ s a s', (d.reply s a).2 = .next s' → measure s' < measure s)
    (hanss : measure s < answers.length) :
  (d.run s answers).2.isSome = true
  := by
  induction answers generalizing s with
  | nil => simp at hanss
  | cons a answers ih =>
    rw [run]
    rcases hreply : d.reply s a with ⟨events, s' | r⟩
    · have hnext : (d.reply s a).2 = .next s' := by rw [hreply]
      apply ih
      apply Nat.lt_of_lt_of_le (hlt s a s' hnext)
      simpa [Nat.lt_succ_iff] using hanss
    · rfl

variable {P : σ → Prop} {Q : ρ → Prop}

theorem of_run_eq_some (hturn : ∀ s a, P s → (d.reply s a).2.Satisfies P Q) {r : ρ} (hs : P s)
    (hr : (d.run s answers).2 = some r) :
  Q r
  := by
  induction answers generalizing s with
  | nil => cases hr
  | cons a answers ih =>
    have hsat := hturn s a hs
    rw [run] at hr
    rcases hreply : d.reply s a with ⟨events, s' | r'⟩
    · rw [hreply] at hr hsat
      apply ih hsat hr
    · rw [hreply] at hr hsat
      cases hr
      apply hsat

/-- When every turn keeps a property of the states that gives one of its events, the events of a run
have it. -/
theorem of_mem_run {E : ε → Prop} (hask : ∀ s, P s → E (d.ask s))
    (hevent : ∀ s a, P s → ∀ e ∈ (d.reply s a).1, E e)
    (hturn : ∀ s a, P s → (d.reply s a).2.Satisfies P Q) (hs : P s) {e : ε}
    (hmem : e ∈ (d.run s answers).1) :
  E e
  := by
  induction answers generalizing s with
  | nil =>
    obtain rfl := mem_singleton.mp hmem
    apply hask s hs
  | cons a answers ih =>
    have hrep := hevent s a hs
    have hsat := hturn s a hs
    rw [run] at hmem
    rcases hreply : d.reply s a with ⟨events, s' | r⟩
    · rw [hreply] at hmem hrep hsat
      obtain rfl | hmem := mem_cons.mp hmem
      · apply hask s hs
      · obtain hmem | hmem := mem_append.mp hmem
        · apply hrep e hmem
        · apply ih hsat hmem
    · rw [hreply] at hmem hrep
      obtain rfl | hmem := mem_cons.mp hmem
      · apply hask s hs
      · apply hrep e hmem

/-- A dialogue from a state with a list of answers has a turn in the state `t` with the answer `b`.
-/
inductive Visits (d : Dialogue σ α ε ρ) : σ → List α → σ → α → Prop
  | here {s a answers} : Visits d s (a :: answers) s a
  | later {s s' t a b answers} :
      (d.reply s a).2 = .next s' → Visits d s' answers t b → Visits d s (a :: answers) t b

/-! ### Turns -/

/-- The turns of a dialogue with the given answers: the state before each, and its answer. -/
def turns (d : Dialogue σ α ε ρ) : σ → List α → List (σ × α)
  | _, [] => []
  | s, a :: answers =>
    (s, a) :: match (d.reply s a).2 with
      | .next s' => d.turns s' answers
      | .done _ => []

theorem eq_foldl_turns {κ : Type} (quantity : σ → κ) (final : ρ → κ) {change : κ → α → κ}
    (hturn : ∀ s a, (d.reply s a).2.Satisfies (fun s' => quantity s' = change (quantity s) a)
      (fun r => final r = change (quantity s) a)) {r : ρ} (hr : (d.run s answers).2 = some r) :
  final r = ((d.turns s answers).map Prod.snd).foldl change (quantity s)
  := by
  induction answers generalizing s with
  | nil => cases hr
  | cons a answers ih =>
    have hsat := hturn s a
    rw [run] at hr
    rw [turns, map_cons, foldl_cons]
    rcases hreply : d.reply s a with ⟨events, s' | r'⟩
    · rw [hreply] at hr hsat
      dsimp only [Turn.Satisfies] at hsat
      rw [ih hr, hsat]
    · rw [hreply] at hr hsat
      cases hr
      apply hsat

/-- What the events of a run contribute is what its turns do, if questions contribute nothing. -/
theorem flatMap_run {κ : Type} {f : ε → List κ} {g : σ × α → List κ} (hask : ∀ s, f (d.ask s) = [])
    (hreply : ∀ s a, (d.reply s a).1.flatMap f = g (s, a)) :
  (d.run s answers).1.flatMap f = (d.turns s answers).flatMap g
  := by
  induction answers generalizing s with
  | nil => simp [run, turns, hask]
  | cons a answers ih =>
    have hevent := hreply s a
    rw [run, turns, flatMap_cons, ← hevent]
    rcases d.reply s a with ⟨events, s' | r⟩
    · simp [hask, ih]
    · simp [hask]

section Visits

variable {d : Dialogue σ α ε ρ} {s s' : σ} {a : α} {answers : List α} {events : List ε}
  {C : σ → α → Prop}

theorem forall_visits_nil :
  ∀ t b, d.Visits s [] t b → C t b
  := by
  intro t b hvisit
  cases hvisit

theorem forall_visits_next (hreply : d.reply s a = (events, .next s')) :
  (∀ t b, d.Visits s (a :: answers) t b → C t b)
    ↔ C s a ∧ ∀ t b, d.Visits s' answers t b → C t b
  := by
  have hnext : (d.reply s a).2 = .next s' := by rw [hreply]
  constructor
  · intro hall
    constructor
    · apply hall s a .here
    · intro t b hvisit
      apply hall t b (.later hnext hvisit)
  · rintro ⟨hfirst, hlater⟩ t b hvisit
    cases hvisit with
    | here => apply hfirst
    | later hnext' hvisit =>
      rw [hnext] at hnext'
      cases hnext'
      apply hlater t b hvisit

theorem forall_visits_done {r : ρ} (hreply : d.reply s a = (events, .done r)) :
  (∀ t b, d.Visits s (a :: answers) t b → C t b) ↔ C s a
  := by
  have hdone : (d.reply s a).2 = .done r := by rw [hreply]
  constructor
  · intro hall
    apply hall s a .here
  · intro hfirst t b hvisit
    cases hvisit with
    | here => apply hfirst
    | later hnext =>
      rw [hdone] at hnext
      cases hnext

end Visits

theorem exists_run_eq (d : Dialogue σ α ε ρ) (s : σ) (answers : List α) :
  ∃ rest, (d.run s answers).1 = d.ask s :: rest
  := by
  cases answers with
  | nil => exact ⟨[], rfl⟩
  | cons a answers =>
    rw [run]
    split <;> exact ⟨_, rfl⟩

/-! ### States -/

def stateAfter (d : Dialogue σ α ε ρ) : σ → List α → Option σ
  | s, [] => some s
  | s, a :: answers =>
    match (d.reply s a).2 with
    | .next s' => d.stateAfter s' answers
    | .done _ => none

theorem stateAfter_append {rest : List α} :
  d.stateAfter s (answers ++ rest) = (d.stateAfter s answers).bind (d.stateAfter · rest)
  := by
  induction answers generalizing s with
  | nil => rfl
  | cons a answers ih =>
    rw [cons_append, stateAfter, stateAfter]
    rcases (d.reply s a).2 with s' | r
    · apply ih
    · rfl

theorem stateAfter_concat_eq_some_iff {t : σ} {a : α} :
  d.stateAfter s (answers ++ [a]) = some t
    ↔ ∃ u, d.stateAfter s answers = some u ∧ (d.reply u a).2 = .next t
  := by
  rw [stateAfter_append, Option.bind_eq_some_iff]
  apply exists_congr
  intro u
  apply and_congr_right
  intro _
  rw [stateAfter]
  rcases (d.reply u a).2 with s' | r
  · simp [stateAfter]
  · simp

theorem visits_iff {t : σ} {b : α} :
  d.Visits s answers t b
    ↔ ∃ before rest, answers = before ++ b :: rest ∧ d.stateAfter s before = some t
  := by
  constructor
  · intro hvisit
    induction hvisit with
    | @here s a answers => exact ⟨[], answers, rfl, rfl⟩
    | @later s s' t a b answers hnext _ ih =>
      obtain ⟨before, rest, rfl, hafter⟩ := ih
      use a :: before, rest, rfl
      rw [stateAfter, hnext]
      apply hafter
  · rintro ⟨before, rest, rfl, hafter⟩
    induction before generalizing s with
    | nil =>
      cases hafter
      apply Visits.here
    | cons a before ih =>
      rw [stateAfter] at hafter
      rcases hreply : (d.reply s a).2 with s' | r
      · rw [hreply] at hafter
        apply Visits.later hreply (ih hafter)
      · rw [hreply] at hafter
        cases hafter

theorem isSome_run_iff :
  (d.run s answers).2.isSome = true ↔ d.stateAfter s answers = none
  := by
  induction answers generalizing s with
  | nil => simp [run, stateAfter]
  | cons a answers ih =>
    rw [run, stateAfter]
    rcases d.reply s a with ⟨events, s' | r⟩
    · apply ih
    · simp

variable {p : ε → Bool}

/-- At most `k` questions are asked exactly when the dialogue does not go on after `k` answers. -/
theorem countP_run_le_iff (hask : ∀ s, p (d.ask s) = true)
    (hreply : ∀ s a, ∀ e ∈ (d.reply s a).1, ¬ p e = true) {k : Nat} :
  (d.run s answers).1.countP p ≤ k
    ↔ (k ≤ answers.length → d.stateAfter s (answers.take k) = none)
  := by
  induction answers generalizing s k with
  | nil =>
    cases k with
    | zero => simp [run, hask, stateAfter]
    | succ k => simp [run, hask]
  | cons a answers ih =>
    have hevent : (d.reply s a).1.countP p = 0 := countP_eq_zero.mpr (hreply s a)
    rw [run]
    cases k with
    | zero =>
      rcases d.reply s a with ⟨events, s' | r⟩ <;> simp [hask, stateAfter]
    | succ k =>
      rw [take_succ_cons, stateAfter]
      rcases heq : d.reply s a with ⟨events, s' | r⟩
      · rw [heq] at hevent
        dsimp only
        rw [countP_cons_of_pos (hask s), countP_append, hevent, Nat.zero_add,
          Nat.add_le_add_iff_right, ih, length_cons, Nat.add_le_add_iff_right]
      · rw [heq] at hevent
        dsimp only
        rw [countP_cons_of_pos (hask s), hevent]
        simp

theorem isSome_run_of_stateAfter_take {k : Nat} (hends : d.stateAfter s (answers.take k) = none) :
  (d.run s answers).2.isSome = true
  := by
  rw [isSome_run_iff, ← take_append_drop k answers, stateAfter_append, hends]
  rfl

/-! ### Two dialogues -/

/-- The turns on an answer have the same events, and lead to related states or results. -/
inductive TurnsAgree {τ ρ' : Type} (R : σ → τ → Prop) (view : ρ' → ρ) :
    List ε × Turn σ ρ → List ε × Turn τ ρ' → Prop
  | next {events s t} :
      R s t → TurnsAgree R view (events, .next s) (events, .next t)
  | done {events r r'} :
      r = view r' → TurnsAgree R view (events, .done r) (events, .done r')

/-- On the same answer the first dialogue ends, and the second one goes on or has another result. -/
inductive TurnsDiffer {τ ρ' : Type} (view : ρ' → ρ) :
    List ε × Turn σ ρ → List ε × Turn τ ρ' → Prop
  | next {events events' r t} :
      TurnsDiffer view (events, .done r) (events', .next t)
  | done {events events' r r'} :
      r ≠ view r' → TurnsDiffer view (events, .done r) (events', .done r')

theorem TurnsDiffer.not_agrees {τ ρ' : Type} {d' : Dialogue τ α ε ρ'} {view : ρ' → ρ} {t : τ}
    {a : α} (hturns : TurnsDiffer view (d.reply s a) (d'.reply t a)) (hask : d.ask s = d'.ask t)
    (hques : ∀ t, p (d'.ask t) = true) (hevent : ∀ e ∈ (d.reply s a).1, ¬ p e = true)
    (answers : List α) :
  ¬ ((d.run s (a :: answers)).1.filter p = (d'.run t (a :: answers)).1.filter p
      ∧ (d.run s (a :: answers)).2 = (d'.run t (a :: answers)).2.map view)
  := by
  rw [run, run, hask]
  generalize d.reply s a = reply, d'.reply t a = reply' at hturns hevent
  cases hturns with
  | @next events events' r t' =>
    rintro ⟨hquest, -⟩
    obtain ⟨rest, hrest⟩ := d'.exists_run_eq t' answers
    have hfil : events.filter p = [] := by
      rw [filter_eq_nil_iff]
      apply hevent
    have hlen := congrArg length hquest
    simp [hrest, hques, hfil] at hlen
  | done hne =>
    rintro ⟨-, hres⟩
    apply hne
    simpa using hres

/-- Two dialogues with the same questions, whose turns agree exactly under a condition, ask the same
and have the same result exactly when every turn of the first one meets the condition. -/
theorem run_agrees_iff {τ ρ' : Type} {d' : Dialogue τ α ε ρ'} {R : σ → τ → Prop} {view : ρ' → ρ}
    {C : σ → α → Prop} (hask : ∀ s t, R s t → d.ask s = d'.ask t)
    (hques : ∀ t, p (d'.ask t) = true) (hevent : ∀ s a, ∀ e ∈ (d.reply s a).1, ¬ p e = true)
    (hagree : ∀ s t a, R s t → C s a → TurnsAgree R view (d.reply s a) (d'.reply t a))
    (hdif : ∀ s t a, R s t → ¬ C s a → TurnsDiffer view (d.reply s a) (d'.reply t a)) {t : τ}
    (hR : R s t) (answers : List α) :
  ((d.run s answers).1.filter p = (d'.run t answers).1.filter p
      ∧ (d.run s answers).2 = (d'.run t answers).2.map view)
    ↔ ∀ u b, d.Visits s answers u b → C u b
  := by
  induction answers generalizing s t with
  | nil =>
    apply iff_of_true _ forall_visits_nil
    rw [run, run, hask s t hR]
    exact ⟨rfl, rfl⟩
  | cons a answers ih =>
    by_cases hC : C s a
    · have hturns := hagree s t a hR hC
      rw [run, run, hask s t hR]
      generalize hreply : d.reply s a = reply, d'.reply t a = reply' at hturns
      cases hturns with
      | @next events s' t' hR' =>
        dsimp only
        rw [filter_cons_of_pos (hques t), filter_cons_of_pos (hques t),
          cons_inj_right, filter_append, filter_append, append_cancel_left_eq,
          ih hR', forall_visits_next hreply, and_iff_right hC]
      | done hres =>
        rw [forall_visits_done hreply]
        exact iff_of_true ⟨rfl, congrArg some hres⟩ hC
    · apply iff_of_false
      · apply (hdif s t a hR hC).not_agrees (hask s t hR) hques (hevent s a)
      · intro hall
        apply hC (hall s a .here)

/-! ### Signals -/

section Signal

variable (signal loud : ε → Prop) (fine : ρ → Prop)

/-- No loud event follows a signal, and the result after a signal is fine. -/
structure Heeds (events : List ε) (result : Option ρ) : Prop where
  silent : events.Pairwise (fun e e' => signal e → ¬ loud e')
  fine_of_signal : ∀ e ∈ events, signal e → ∀ r ∈ result, fine r

structure TurnHeeds (events : List ε) (turn : Turn σ ρ) : Prop where
  silent : events.Pairwise (fun e e' => signal e → ¬ loud e')
  ends : ∀ e ∈ events, signal e → ∃ r, turn = .done r ∧ fine r

variable {signal loud fine}

variable {events : List ε}

theorem heeds_cons_iff {e : ε} {result : Option ρ} (hquiet : ¬ signal e) :
  Heeds signal loud fine (e :: events) result ↔ Heeds signal loud fine events result
  := by
  constructor
  · rintro ⟨hsil, hfine⟩
    constructor
    · apply (pairwise_cons.mp hsil).2
    · intro e' hmem
      apply hfine e' (mem_cons_of_mem _ hmem)
  · rintro ⟨hsil, hfine⟩
    constructor
    · apply pairwise_cons.mpr ⟨fun _ _ hsig => absurd hsig hquiet, hsil⟩
    · intro e' hmem hsig
      obtain rfl | hmem := mem_cons.mp hmem
      · contradiction
      · apply hfine e' hmem hsig

theorem heeds_some_iff {r : ρ} :
  Heeds signal loud fine events (some r) ↔ TurnHeeds (σ := σ) signal loud fine events (.done r)
  := by
  constructor
  · rintro ⟨hsil, hfine⟩
    exact ⟨hsil, fun e hmem hsig => ⟨r, rfl, hfine e hmem hsig r rfl⟩⟩
  · rintro ⟨hsil, hends⟩
    refine ⟨hsil, ?_⟩
    rintro e hmem hsig r' ⟨⟩
    obtain ⟨r', heq, hfine⟩ := hends e hmem hsig
    cases heq
    apply hfine

theorem turnHeeds_next_iff {s : σ} :
  TurnHeeds signal loud fine events (.next s) ↔ ∀ e ∈ events, ¬ signal e
  := by
  constructor
  · rintro ⟨_, hends⟩ e hmem hsig
    obtain ⟨r, heq, _⟩ := hends e hmem hsig
    cases heq
  · intro hnone
    constructor
    · apply List.Pairwise.imp_of_mem _ (pairwise_of_forall (fun _ _ => True.intro))
      intro e e' hmem _ _ hsig
      exact absurd hsig (hnone e hmem)
    · intro e hmem hsig
      exact absurd hsig (hnone e hmem)

theorem heeds_append_cons_iff {rest : List ε} {e : ε} {result : Option ρ} {s : σ} (hloud : loud e) :
  Heeds signal loud fine (events ++ e :: rest) result
    ↔ TurnHeeds signal loud fine events (.next s)
      ∧ Heeds signal loud fine (e :: rest) result
  := by
  rw [turnHeeds_next_iff]
  constructor
  · rintro ⟨hsil, hfine⟩
    obtain ⟨_, hrest, hacr⟩ := pairwise_append.mp hsil
    refine ⟨?_, hrest, ?_⟩
    · intro e' hmem hsig
      apply hacr e' hmem e mem_cons_self hsig hloud
    · intro e' hmem
      apply hfine e' (mem_append_right _ hmem)
  · rintro ⟨hnone, hsil, hfine⟩
    constructor
    · have hevent : TurnHeeds signal loud fine events (.next s) := turnHeeds_next_iff.mpr hnone
      refine pairwise_append.mpr ⟨hevent.silent, hsil, ?_⟩
      intro e' hmem _ _ hsig
      exact absurd hsig (hnone e' hmem)
    · intro e' hmem hsig
      obtain hmem | hmem := mem_append.mp hmem
      · exact absurd hsig (hnone e' hmem)
      · apply hfine e' hmem hsig

theorem heeds_run_iff {d : Dialogue σ α ε ρ} (hloud : ∀ s, loud (d.ask s))
    (hquiet : ∀ s, ¬ signal (d.ask s)) (s : σ) (answers : List α) :
  Heeds signal loud fine (d.run s answers).1 (d.run s answers).2
    ↔ ∀ t b, d.Visits s answers t b →
      TurnHeeds signal loud fine (d.reply t b).1 (d.reply t b).2
  := by
  induction answers generalizing s with
  | nil =>
    apply iff_of_true _ forall_visits_nil
    constructor <;> simp [run, hquiet]
  | cons a answers ih =>
    rw [run]
    rcases hreply : d.reply s a with ⟨events, s' | r⟩
    · obtain ⟨rest, hrest⟩ := d.exists_run_eq s' answers
      have ih' := ih s'
      rw [hrest] at ih'
      simp only [hrest]
      rw [heeds_cons_iff (hquiet s), heeds_append_cons_iff (s := s') (hloud s'), ih',
        forall_visits_next hreply, hreply]
    · rw [heeds_cons_iff (hquiet s), heeds_some_iff (σ := σ), forall_visits_done hreply, hreply]

end Signal

/-! ### Properties of runs -/

/-- The events and the result have their properties exactly when each turn meets a condition, if
turns from good states lead to good ones exactly under the condition, and questions show that states
are good. -/
theorem forall_run_iff {E : ε → Prop} {C : σ → α → Prop} (hask : ∀ s, P s → E (d.ask s))
    (hevent : ∀ s a, ∀ e ∈ (d.reply s a).1, E e)
    (hnext : ∀ s a s', P s → (d.reply s a).2 = .next s' → E (d.ask s') → P s')
    (hturn : ∀ s a, P s → ((d.reply s a).2.Satisfies P Q ↔ C s a)) (hs : P s) (answers : List α) :
  ((∀ e ∈ (d.run s answers).1, E e) ∧ ∀ r ∈ (d.run s answers).2, Q r)
    ↔ ∀ t b, d.Visits s answers t b → C t b
  := by
  induction answers generalizing s with
  | nil =>
    apply iff_of_true _ forall_visits_nil
    constructor
    · intro e hmem
      obtain rfl := mem_singleton.mp hmem
      apply hask s hs
    · rintro r ⟨⟩
  | cons a answers ih =>
    have hturn' := hturn s a hs
    have hnext' := hnext s a
    have hevent' := hevent s a
    rw [run]
    rcases hreply : d.reply s a with ⟨events, s' | r⟩
    · rw [hreply] at hturn' hnext' hevent'
      rw [forall_visits_next hreply, ← hturn', List.forall_mem_cons, List.forall_mem_append]
      constructor
      · rintro ⟨⟨-, -, hlater⟩, hres⟩
        obtain ⟨rest, hrest⟩ := d.exists_run_eq s' answers
        have hs' : P s' := by
          apply hnext' s' hs rfl
          apply hlater
          rw [hrest]
          apply mem_cons_self
        exact ⟨hs', (ih hs').mp ⟨hlater, hres⟩⟩
      · rintro ⟨hs', hall⟩
        obtain ⟨hlater, hres⟩ := (ih hs').mpr hall
        exact ⟨⟨hask s hs, hevent', hlater⟩, hres⟩
    · rw [hreply] at hturn' hevent'
      rw [forall_visits_done hreply, ← hturn', List.forall_mem_cons]
      constructor
      · rintro ⟨-, hres⟩
        apply hres r rfl
      · intro hfine
        refine ⟨⟨hask s hs, hevent'⟩, ?_⟩
        rintro r' ⟨⟩
        apply hfine

end Dialogue
