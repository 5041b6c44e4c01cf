import AaOS.Plan.Discipline
import AaOS.Plan.Planner

/-!
# Replanning

`run` of `aaos-runtime/src/plan/executor.rs` asks the planner for a plan and executes it.  When the
execution fails in a way that the planner may correct, the failed subtasks are given stronger
models, and the planner is asked again, up to a bound.
-/

open PlanExecutor

/-! ### Runs -/

/-- An executor of plans that may replan. -/
structure ReplanningExecutor extends PlanExecutor where
  planner : Planner
  maxReplans : UInt32 := 3
  totalDeadline : Nat := 600000000000

/-- The outcomes of the operations of a run, the answers of the planner's model, times, and
executions. -/
structure RunEnv where
  createDirAll : Except Text Unit
  answers : Nat → LlmResult
  writePlanJson : Nat → Except Text Unit
  elapsed : Nat → Nat
  attempts : Nat → Attempt

/-- A step of a run. -/
inductive RunStep where
  | planned (answer : LlmResult)
  | executed (plan : Plan) (execution : Executed)
  | replanned (reason : Text)
  | escalated (subtaskId : SubtaskId) (fromTier toTier : UInt8) (fromModel toModel reason : Text)
  | produced (subtaskCount replansUsed : UInt32)

inductive RunEnd where
  | returned (outcome : Except ExecutorError PlanResult)
  | panicked

/-- What a run leads to: its steps and its end. -/
structure Ran where
  steps : List RunStep
  ending : RunEnd

/-- Steps before those of the rest of a run. -/
def Ran.after (steps : List RunStep) (ran : Ran) : Ran := ⟨steps ++ ran.steps, ran.ending⟩

def PlannerError.toExecutorError : PlannerError → ExecutorError
  | malformed message => .correctable message
  | llmCall message => .terminal (.ipc ("planner LLM: " ++ message))

namespace ReplanningExecutor

variable (executor : ReplanningExecutor) (env : RunEnv)

/-! ### Escalations -/

def currentTier (plan : Plan) (id : SubtaskId) : UInt8 :=
  ((plan.subtasks.find? (·.id = id)).map (·.currentModelTier)).getD 0

def nextTier (ladder : List Text) (tier : UInt8) : UInt8 :=
  min (tier + 1) (ladder.length - 1).toUInt8

/-- A round of the loop over the failures: a subtask may be given a stronger model. -/
def escalate (plan : Plan) (acc : Table SubtaskId UInt8 × List RunStep) (f : FailedSubtask) :
    Table SubtaskId UInt8 × List RunStep :=
  match executor.catalog.lookup f.role with
  | none => acc
  | some role =>
    let ladder := PlanExecutor.ladder role
    let tier := currentTier plan f.subtaskId
    match decideEscalation f role.escalateOn ladder.length tier with
    | none => acc
    | some signal =>
      let newTier := nextTier ladder tier
      (AList.insert f.subtaskId newTier acc.1,
        acc.2 ++ [.escalated f.subtaskId tier newTier (ladder.getD tier.toNat [])
          (ladder.getD newTier.toNat []) signal.reason])

def escalations (plan : Plan) (failures : List FailedSubtask) :
    Table SubtaskId UInt8 × List RunStep :=
  failures.foldl (executor.escalate plan) (∅, [])

/-! ### The loop -/

def planJson : Text := executor.runRoot ++ "/plan.json"

def callPlanner (call : Nat) (adapt : Plan → Plan) (go : Plan → Ran) : Ran :=
  Ran.after [.planned (env.answers call)]
    (match executor.planner.callAndParse executor.catalog (env.answers call) with
    | none => ⟨[], .panicked⟩
    | some (.error e) => ⟨[], .returned (.error e.toExecutorError)⟩
    | some (.ok plan) =>
      match env.writePlanJson call with
      | .error message =>
        ⟨[], .returned (.error (.terminal (.ipc
          ("write " ++ executor.planJson ++ ": " ++ message))))⟩
      | .ok () => go (adapt plan))

/-- Execute a plan, and replan as often as remains, after the given replans and events. -/
def loop : Nat → UInt32 → List SubtaskEvent → Plan → Ran
  | remaining, used, log, plan =>
    if executor.totalDeadline < env.elapsed used.toNat then
      ⟨[], .returned (.error (.terminal (.ipc "planner deadline exhausted")))⟩
    else
      let execution := executor.executePlan (env.attempts used.toNat) log plan
      Ran.after [.executed plan execution]
        (match execution.outcome, remaining with
        | .ok result, _ =>
          ⟨[.produced plan.subtasks.length.toUInt32 used], .returned (.ok result)⟩
        | .error (.correctable reason failures), remaining + 1 =>
          let (bumps, events) := executor.escalations plan failures
          Ran.after (.replanned reason :: events)
            (executor.callPlanner env (used.toNat + 1) (carryTiersForward · plan bumps)
              (loop remaining (used + 1)
                (log ++ execution.steps.filterMap PlanStep.recorded)))
        | .error e, _ => ⟨[], .returned (.error e)⟩)

/-- Plan and execute. -/
def run (log : List SubtaskEvent) : Ran :=
  match env.createDirAll with
  | .error message =>
    ⟨[], .returned (.error (.terminal (.ipc
      ("create workspace " ++ executor.runRoot ++ ": " ++ message))))⟩
  | .ok () => executor.callPlanner env 0 id (executor.loop env executor.maxReplans.toNat 0 log)

/-! ### The rounds of the loop -/

section Rounds

theorem escalate_eq_or (plan : Plan) (acc : Table SubtaskId UInt8 × List RunStep)
    (f : FailedSubtask) :
  executor.escalate plan acc f = acc
    ∨ ∃ role signal, executor.catalog.lookup f.role = some role
      ∧ decideEscalation f role.escalateOn (ladder role).length
        (currentTier plan f.subtaskId) = some signal
      ∧ executor.escalate plan acc f
        = (AList.insert f.subtaskId
            (nextTier (ladder role) (currentTier plan f.subtaskId)) acc.1,
          acc.2 ++ [.escalated f.subtaskId (currentTier plan f.subtaskId)
            (nextTier (ladder role) (currentTier plan f.subtaskId))
            ((ladder role).getD (currentTier plan f.subtaskId).toNat [])
            ((ladder role).getD
              (nextTier (ladder role) (currentTier plan f.subtaskId)).toNat [])
            signal.reason])
  := by
  unfold escalate
  cases hrole : executor.catalog.lookup f.role with
  | none => exact .inl rfl
  | some role =>
    dsimp only
    cases hsig : decideEscalation f role.escalateOn (ladder role).length
      (currentTier plan f.subtaskId) with
    | none => exact .inl rfl
    | some signal => exact .inr ⟨role, signal, rfl, hsig, rfl⟩

theorem callPlanner_cases (call : Nat) (adapt : Plan → Plan) (go : Plan → Ran) :
  (executor.planner.Malformed executor.catalog (env.answers call)
    ∧ ∃ ending, executor.callPlanner env call adapt go = ⟨[.planned (env.answers call)], ending⟩
      ∧ (ending = .panicked ∨ ∃ reason, ending = .returned (.error (.correctable reason))))
    ∨ (¬ executor.planner.Malformed executor.catalog (env.answers call)
      ∧ ∃ e, executor.callPlanner env call adapt go
        = ⟨[.planned (env.answers call)], .returned (.error (.terminal e))⟩)
    ∨ ∃ plan, executor.planner.Accepts executor.catalog (env.answers call) plan
      ∧ executor.callPlanner env call adapt go
        = Ran.after [.planned (env.answers call)] (go (adapt plan))
  := by
  unfold callPlanner Planner.Accepts Planner.Malformed
  cases hans : executor.planner.callAndParse executor.catalog (env.answers call) with
  | none => exact .inl ⟨.inl rfl, _, rfl, .inl rfl⟩
  | some result =>
    cases result with
    | error e =>
      cases e with
      | malformed message => exact .inl ⟨.inr ⟨message, rfl⟩, _, rfl, .inr ⟨message, rfl⟩⟩
      | llmCall message => exact .inr (.inl ⟨by simp, _, rfl⟩)
    | ok plan =>
      dsimp only
      cases env.writePlanJson call with
      | error message => exact .inr (.inl ⟨by simp, _, rfl⟩)
      | ok => exact .inr (.inr ⟨plan, rfl, rfl⟩)

/-- What a round of the loop does. -/
theorem loop_cases (remaining : Nat) (used : UInt32) (log : List SubtaskEvent) (plan : Plan) :
  let execution := executor.executePlan (env.attempts used.toNat) log plan
  let ran := executor.loop env remaining used log plan
  (executor.totalDeadline < env.elapsed used.toNat
      ∧ ∃ e, ran = ⟨[], .returned (.error (.terminal e))⟩)
    ∨ (∃ result count, ran
        = ⟨[.executed plan execution, .produced count used], .returned (.ok result)⟩)
    ∨ (∃ e, ran = ⟨[.executed plan execution], .returned (.error e)⟩
        ∧ (remaining = 0 ∨ ∃ e', e = .terminal e'))
    ∨ ∃ n reason failures, remaining = n + 1
      ∧ execution.outcome = .error (.correctable reason failures)
      ∧ ran = Ran.after
          (.executed plan execution :: .replanned reason :: (executor.escalations plan failures).2)
          (executor.callPlanner env (used.toNat + 1)
            (carryTiersForward · plan (executor.escalations plan failures).1)
            (executor.loop env n (used + 1)
              (log ++ execution.steps.filterMap PlanStep.recorded)))
  := by
  intro execution ran
  by_cases hlate : executor.totalDeadline < env.elapsed used.toNat
  · apply Or.inl
    use hlate, .ipc "planner deadline exhausted"
    unfold ran loop
    rw [if_pos hlate]
  · apply Or.inr
    unfold ran
    cases hout : execution.outcome with
    | ok result =>
      refine .inl ⟨result, plan.subtasks.length.toUInt32, ?_⟩
      unfold loop
      simp only [if_neg hlate, execution, hout, Ran.after, List.singleton_append]
    | error e =>
      apply Or.inr
      obtain ⟨reason, failures⟩ | e := e
      · cases remaining with
        | zero =>
          refine .inl ⟨.correctable reason failures, ?_, .inl rfl⟩
          unfold loop
          simp only [if_neg hlate, execution, hout, Ran.after, List.append_nil]
        | succ n =>
          refine .inr ⟨n, reason, failures, rfl, rfl, ?_⟩
          rw [loop]
          simp only [if_neg hlate, execution, hout, Ran.after, List.cons_append, List.nil_append]
      · refine .inl ⟨.terminal e, ?_, .inr ⟨e, rfl⟩⟩
        unfold loop
        simp only [if_neg hlate, execution, hout, Ran.after, List.append_nil]

theorem exists_steps_loop (executor : ReplanningExecutor) (env : RunEnv) (remaining : Nat)
    (used : UInt32) (log : List SubtaskEvent) (plan : Plan)
    (hint : env.elapsed used.toNat ≤ executor.totalDeadline) :
  ∃ after, (executor.loop env remaining used log plan).steps
    = .executed plan (executor.executePlan (env.attempts used.toNat) log plan) :: after
  := by
  obtain ⟨hlate, -⟩ | ⟨result, count, heq⟩ | ⟨e, heq, -⟩ | ⟨n, reason, failures, -, -, heq⟩ :=
    executor.loop_cases env remaining used log plan
  · exact absurd hlate (Nat.not_lt_of_le hint)
  all_goals exact ⟨_, congrArg Ran.steps heq⟩

end Rounds

end ReplanningExecutor

/-! ### Examples of runs -/

def replanningExecutor (catalog : RoleCatalog) (fromStr : Text → Except Text Plan) :
    ReplanningExecutor :=
  { executorOf catalog with planner := ⟨fromStr, none⟩ }

def answering (text : Text) (runner : SubtaskLaunch → RunnerFuture) : RunEnv where
  createDirAll := .ok ()
  answers _ := .ok ⟨[.text text], .endTurn, {}⟩
  writePlanJson _ := .ok ()
  elapsed _ := 0
  attempts _ := attemptWith runner
