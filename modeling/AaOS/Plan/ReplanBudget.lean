import AaOS.Plan.Replanning

/-!
# The budget of replans

A run calls the planner and executes plans at most as often as its budget of replans
allows.  An execution that fails uses up a replan.  A malformed answer of the planner's
model ends the run at once, however many replans are left.
-/

open List

/-! ### Runs within the budget -/

/-- The answer of the planner's model in a step. -/
def RunStep.answer : RunStep → Option LlmResult
  | planned answer => some answer
  | _ => none

def RunStep.isExecution : RunStep → Bool
  | executed .. => true
  | _ => false

namespace Ran

variable (ran : Ran)

/-- The answers to the calls of the planner. -/
def answers : List LlmResult := ran.steps.filterMap RunStep.answer

/-- The number of executions of plans. -/
def executions : Nat := ran.steps.countP RunStep.isExecution

/-- The run ends with an error that the planner may correct, or with a panic. -/
def GivesUp : Prop :=
  ran.ending = .panicked
    ∨ ∃ reason failures, ran.ending = .returned (.error (.correctable reason failures))

end Ran

namespace ReplanningExecutor

variable {executor : ReplanningExecutor} {env : RunEnv}

/-- The run keeps to the budget of replans, and uses it up before it gives up. -/
structure WithinBudget (executor : ReplanningExecutor) (ran : Ran) : Prop where
  executions : ran.executions ≤ executor.maxReplans.toNat + 1
  calls : ran.answers.length ≤ executor.maxReplans.toNat + 1
  consumed : ran.GivesUp → ran.answers.length = executor.maxReplans.toNat + 1

/-! ### What a run uses -/

/-- A malformed answer is the last one, and a run that gives up got one or made all its calls. -/
structure Uses (executor : ReplanningExecutor) (executions calls : Nat) (ran : Ran) : Prop where
  executions_le : ran.executions ≤ executions
  calls_le : ran.answers.length ≤ calls
  malformed : ∀ earlier answer later, ran.answers = earlier ++ answer :: later →
    executor.planner.Malformed executor.catalog answer → later = [] ∧ ran.GivesUp
  givesUp : ran.GivesUp → ran.answers.length = calls
    ∨ ∃ earlier answer, ran.answers = earlier ++ [answer]
      ∧ executor.planner.Malformed executor.catalog answer

variable {ran : Ran} {executions calls : Nat}

theorem uses_of_answers_eq_nil (hanss : ran.answers = [])
    (hexec : ran.executions ≤ executions) (hgiv : ran.GivesUp → calls = 0) :
  executor.Uses executions calls ran
  := by
  constructor
  case executions_le => apply hexec
  case calls_le => simp [hanss]
  case malformed =>
    intro earlier answer later heq
    simp [hanss] at heq
  case givesUp =>
    intro h
    apply Or.inl
    rw [hanss, hgiv h, length_nil]

/-- Steps without calls of the planner come before the rest of a run. -/
theorem Uses.after (huses : executor.Uses executions calls ran) {steps : List RunStep}
    (hnone : ∀ step ∈ steps, step.answer = none) {total : Nat}
    (htotal : steps.countP RunStep.isExecution + executions ≤ total) :
  executor.Uses total calls (Ran.after steps ran)
  := by
  have hanss : (Ran.after steps ran).answers = ran.answers := by
    rw [Ran.answers, Ran.after, filterMap_append, filterMap_eq_nil_iff.mpr hnone]
    rfl
  have hgiv : (Ran.after steps ran).GivesUp ↔ ran.GivesUp := Iff.rfl
  constructor
  case executions_le =>
    have hle := huses.executions_le
    unfold Ran.executions at hle ⊢
    rw [Ran.after, countP_append]
    omega
  case calls_le =>
    rw [hanss]
    apply huses.calls_le
  case malformed =>
    rw [hanss, hgiv]
    apply huses.malformed
  case givesUp =>
    rw [hanss, hgiv]
    apply huses.givesUp

variable {answer : LlmResult}

theorem uses_planned {ending : RunEnd} (executions calls : Nat)
    (hgiv : (Ran.mk [.planned answer] ending).GivesUp
      ↔ executor.planner.Malformed executor.catalog answer) :
  executor.Uses executions (calls + 1) ⟨[.planned answer], ending⟩
  := by
  have hanss : (Ran.mk [.planned answer] ending).answers = [answer] := rfl
  constructor
  case executions_le => apply Nat.zero_le
  case calls_le => simp [hanss]
  case malformed =>
    intro earlier answer' later hsplit hmal
    rw [hanss] at hsplit
    obtain ⟨rfl, hnil⟩ | ⟨rest, rfl, hnil⟩ := cons_eq_append_iff.mp hsplit
    · obtain ⟨rfl, rfl⟩ := cons.inj hnil
      exact ⟨rfl, hgiv.mpr hmal⟩
    · simp at hnil
  case givesUp =>
    intro h
    apply Or.inr
    use [], answer, hanss
    apply hgiv.mp h

theorem Uses.planned (huses : executor.Uses executions calls ran)
    (hnot : ¬ executor.planner.Malformed executor.catalog answer) :
  executor.Uses executions (calls + 1) (Ran.after [.planned answer] ran)
  := by
  have hanss : (Ran.after [.planned answer] ran).answers = answer :: ran.answers := rfl
  constructor
  case executions_le => apply huses.executions_le
  case calls_le =>
    rw [hanss, length_cons]
    apply Nat.succ_le_succ huses.calls_le
  case malformed =>
    intro earlier answer' later hsplit hmal
    rw [hanss] at hsplit
    obtain ⟨rfl, hrest⟩ | ⟨rest, rfl, hrest⟩ := cons_eq_append_iff.mp hsplit
    · obtain ⟨rfl, -⟩ := cons.inj hrest
      exact absurd hmal hnot
    · apply huses.malformed rest answer' later hrest hmal
  case givesUp =>
    intro h
    obtain hlen | ⟨earlier, answer', hlast, hmal⟩ := huses.givesUp h
    · apply Or.inl
      rw [hanss, length_cons, hlen]
    · apply Or.inr
      use answer :: earlier, answer'
      rw [hanss, hlast]
      exact ⟨rfl, hmal⟩

theorem not_malformed_of_accepts {plan : Plan}
    (hacc : executor.planner.Accepts executor.catalog answer plan) :
  ¬ executor.planner.Malformed executor.catalog answer
  := by
  unfold Planner.Malformed
  rw [hacc]
  simp

theorem uses_callPlanner {call : Nat} {adapt : Plan → Plan} {go : Plan → Ran}
    (huses : ∀ plan, executor.Uses executions calls (go plan)) :
  executor.Uses executions (calls + 1) (executor.callPlanner env call adapt go)
  := by
  obtain ⟨hmal, ending, heq, hend⟩ | ⟨hnot, e, heq⟩ | ⟨plan, hacc, heq⟩ :=
    executor.callPlanner_cases env call adapt go
  · rw [heq]
    apply uses_planned
    apply iff_of_true _ hmal
    obtain rfl | ⟨reason, rfl⟩ := hend
    · exact .inl rfl
    · exact .inr ⟨reason, [], rfl⟩
  · rw [heq]
    apply uses_planned
    apply iff_of_false _ hnot
    simp [Ran.GivesUp]
  · rw [heq]
    apply (huses _).planned (not_malformed_of_accepts hacc)

theorem mem_escalations {plan : Plan} {failures : List FailedSubtask} {step : RunStep}
    (hstep : step ∈ (executor.escalations plan failures).2) :
  step.answer = none ∧ step.isExecution = false
  := by
  unfold escalations at hstep
  induction failures using reverseRecOn with
  | nil => cases hstep
  | append_singleton failures f ih =>
    rw [foldl_append, foldl_cons, foldl_nil] at hstep
    obtain heq | ⟨role, signal, -, -, heq⟩ := executor.escalate_eq_or plan
      (failures.foldl (executor.escalate plan) (∅, [])) f
    · rw [heq] at hstep
      apply ih hstep
    · rw [heq, mem_append, mem_singleton] at hstep
      obtain hstep | rfl := hstep
      · apply ih hstep
      · exact ⟨rfl, rfl⟩

theorem uses_loop (remaining : Nat) (used : UInt32) (log : List SubtaskEvent) (plan : Plan) :
  executor.Uses (remaining + 1) remaining (executor.loop env remaining used log plan)
  := by
  induction remaining using Nat.strong_induction_on generalizing used log plan with
  | h remaining ih =>
    obtain ⟨-, e, heq⟩ | ⟨result, count, heq⟩ | ⟨e, heq, hlast⟩
      | ⟨n, reason, failures, rfl, -, heq⟩ := executor.loop_cases env remaining used log plan
    · rw [heq]
      apply uses_of_answers_eq_nil rfl (Nat.zero_le _)
      simp [Ran.GivesUp]
    · rw [heq]
      apply uses_of_answers_eq_nil rfl
      · apply Nat.succ_le_succ (Nat.zero_le remaining)
      · simp [Ran.GivesUp]
    · rw [heq]
      apply uses_of_answers_eq_nil rfl
      · apply Nat.succ_le_succ (Nat.zero_le remaining)
      · intro hgiv
        obtain rfl | ⟨e', rfl⟩ := hlast
        · rfl
        · simp [Ran.GivesUp] at hgiv
    · rw [heq]
      have hcall : executor.Uses (n + 1) (n + 1) (executor.callPlanner env (used.toNat + 1)
          (carryTiersForward · plan (executor.escalations plan failures).1)
          (executor.loop env n (used + 1) (log ++ (executor.executePlan
            (env.attempts used.toNat) log plan).steps.filterMap PlanStep.recorded))) := by
        apply uses_callPlanner
        intro newPlan
        apply ih n (Nat.lt_succ_self n)
      apply hcall.after
      · intro step hstep
        obtain rfl | hstep := mem_cons.mp hstep
        · rfl
        · obtain rfl | hstep := mem_cons.mp hstep
          · rfl
          · apply (mem_escalations hstep).1
      · have hnone : (executor.escalations plan failures).2.countP RunStep.isExecution = 0 := by
          rw [countP_eq_zero]
          intro step hstep
          simp [(mem_escalations hstep).2]
        rw [countP_cons, countP_cons, hnone]
        simp [RunStep.isExecution]
        omega

theorem uses_run (executor : ReplanningExecutor) (env : RunEnv) (log : List SubtaskEvent) :
  executor.Uses (executor.maxReplans.toNat + 1) (executor.maxReplans.toNat + 1)
    (executor.run env log)
  := by
  unfold run
  cases env.createDirAll with
  | error message =>
    apply uses_of_answers_eq_nil rfl (Nat.zero_le _)
    simp [Ran.GivesUp]
  | ok =>
    apply uses_callPlanner
    apply uses_loop

/-- A run keeps to its budget exactly when no answer before the last one allowed is malformed. -/
theorem withinBudget_run_iff
    (executor : ReplanningExecutor) (env : RunEnv) (log : List SubtaskEvent) :
  executor.WithinBudget (executor.run env log)
    ↔ ∀ earlier answer later, (executor.run env log).answers = earlier ++ answer :: later →
      earlier.length < executor.maxReplans.toNat →
      ¬ executor.planner.Malformed executor.catalog answer
  := by
  have huses := uses_run executor env log
  constructor
  · intro hbud earlier answer later heq hlt hmal
    obtain ⟨rfl, hgiv⟩ := huses.malformed earlier answer later heq hmal
    have hcon := hbud.consumed hgiv
    rw [heq, List.length_append, List.length_singleton] at hcon
    omega
  · intro hnone
    constructor
    case executions => apply huses.executions_le
    case calls => apply huses.calls_le
    case consumed =>
      intro hgiv
      obtain hlen | ⟨earlier, answer, heq, hmal⟩ := huses.givesUp hgiv
      · apply hlen
      · have hle : executor.maxReplans.toNat ≤ earlier.length := by
          by_contra hlt
          apply hnone earlier answer [] heq (Nat.lt_of_not_le hlt) hmal
        have hcalls := huses.calls_le
        rw [heq, List.length_append, List.length_singleton] at hcalls ⊢
        omega

end ReplanningExecutor

/-! ### A run that ends too early -/

/-- The first answer of the model has no JSON in it, and the run ends with it. -/
theorem not_withinBudget_answering :
  ¬ (replanningExecutor writerCatalog (fun _ => .error [])).WithinBudget
      ((replanningExecutor writerCatalog (fun _ => .error [])).run
        (answering "no".toList (idleRunner ⟨1⟩)) [])
  := by
  intro hbud
  have hcon := hbud.consumed (.inr ⟨_, _, rfl⟩)
  cases hcon
