import AaOS.Lib.Stages
import AaOS.Plan.Escalation
import AaOS.Plan.Hops
import AaOS.Plan.Outputs

/-!
# The execution of a plan

`execute_plan` of `aaos-runtime/src/plan/executor.rs` runs the batches of a plan one after the
other.  The subtasks of a batch are launched together; when all have ended, their results are
examined, and a failure ends the execution.  The future of a subtask is given by what its agent
records until it ends or is dropped, and by its result.
-/

/-! ### Runners -/

/-- The bounds on the run of a subtask, as its role gives them. -/
structure SubtaskExecutorOverrides where
  maxOutputTokens : UInt32
  maxIterations : UInt32
  commitNudges : UInt32

/-- What a runner is given.  A deadline is a time in nanoseconds. -/
structure SubtaskLaunch where
  subtaskId : SubtaskId
  manifestYaml : Text
  message : Text
  overrides : SubtaskExecutorOverrides
  deadline : Option Nat
  runRoot : Text

/-- The result of a subtask. -/
structure SubtaskResult where
  subtaskId : SubtaskId
  agentId : AgentId
  response : Text
  inputTokens : UInt64
  outputTokens : UInt64

/-- What is recorded about agents until the future ends or is dropped, its result, and whether a
deadline comes first. -/
structure RunnerFuture where
  agent : Option AgentId
  events : List (AgentId × AgentEvent)
  result : Except CoreError SubtaskResult
  dropped : Bool
  agent_eq : ∀ r, result = .ok r → agent = some r.agentId

/-- The message of the error that stands for a deadline that has passed. -/
def ttlWallClockSentinel : Text := "ttl wall-clock exceeded"

def raceDeadline (future : RunnerFuture) (deadline : Option Nat) : Except CoreError SubtaskResult :=
  if deadline.isSome && future.dropped then .error (.ipc ttlWallClockSentinel) else future.result

/-! ### Executions -/

structure AuditLog where
  eventsSnapshot : List SubtaskEvent → List SubtaskEvent
  recent : ∀ log, ∃ evicted, log = evicted ++ eventsSnapshot log

/-- A step of the execution of a plan. -/
inductive PlanStep where
  | launch (s : Subtask)
  | record (event : SubtaskEvent)
  | insert (id : SubtaskId) (result : SubtaskResult)

/-- The event that a step records. -/
def PlanStep.recorded : PlanStep → Option SubtaskEvent
  | record event => some event
  | _ => none

/-- The executor, with the directory of the run and the texts of values, agents and capabilities. -/
structure PlanExecutor where
  catalog : RoleCatalog
  auditLog : AuditLog
  runRoot : Text
  toText : Json → Text
  texts : MessageTexts

/-- What an execution of a plan meets: orders, times, files, and the runners. -/
structure Attempt where
  order : IterationOrder
  join : JoinOrder PlanStep
  now : SubtaskId → Nat
  pathExists : SubtaskId → Text → Bool
  runner : SubtaskLaunch → RunnerFuture
  scaffoldRunner : Option (SubtaskId → Text → Json → RunnerFuture)

structure PlanResult where
  plan : Plan
  results : Table SubtaskId SubtaskResult
  finalOutput : Text

/-- What an execution leads to: its steps, the map of results, and what is returned. -/
structure Executed where
  steps : List PlanStep
  results : Table SubtaskId SubtaskResult
  outcome : Except ExecutorError PlanResult

def AgentId.nil : AgentId := ⟨0⟩

namespace PlanExecutor

variable (executor : PlanExecutor) (attempt : Attempt)

/-- The substitutions for the run. -/
def subs : Substitutions := ⟨executor.runRoot⟩

/-- The time at which the run of a subtask is given up. -/
def wallClockDeadline (s : Subtask) : Option Nat :=
  (s.ttl.bind (·.maxWallClock)).map (attempt.now s.id + ·)

/-- The models to try for the subtasks of a role. -/
def ladder (role : Role) : List Text :=
  match role.resolvedLadder with
  | .ok ladder => ladder
  | .error _ => [role.model]

def launchOf (role : Role) (s : Subtask) : SubtaskLaunch :=
  let params := executor.subs.apply s.params
  let tier := min s.currentModelTier.toNat ((ladder role).length - 1)
  { subtaskId := s.id
    manifestYaml := role.renderManifestWithModel executor.toText ((ladder role).getD tier []) params
    message := role.renderMessage executor.toText params
    overrides :=
      { maxOutputTokens := role.budget.maxOutputTokens.toUInt32
        maxIterations := role.orchestration.maxIterations
        commitNudges := role.orchestration.commitNudges }
    deadline := wallClockDeadline attempt s
    runRoot := executor.subs.runRoot }

def futureOf (role : Role) (s : Subtask) : Except ExecutorError RunnerFuture :=
  match role.scaffold with
  | some scaffold =>
    match attempt.scaffoldRunner with
    | some runner => .ok (runner s.id scaffold.kind (executor.subs.apply s.params))
    | none =>
      .error (.terminal (.ipc ("role '" ++ s.role ++ "' declares scaffold kind '"
        ++ scaffold.kind ++ "' but no scaffold runner is installed")))
  | none => .ok (attempt.runner (executor.launchOf attempt role s))

def await (s : Subtask) (future : RunnerFuture) :
    List SubtaskEvent × Except ExecutorError SubtaskResult :=
  let events := future.events.map (fun (agentId, event) => SubtaskEvent.agent agentId event)
  match raceDeadline future (wallClockDeadline attempt s) with
  | .ok r => (events, .ok r)
  | .error (.ipc message) =>
    if message = ttlWallClockSentinel then
      (events ++ [.ttlExpired s.id "wall_clock_exceeded"],
        .error (.correctable ("subtask '" ++ s.id ++ "' exceeded wall-clock TTL")))
    else (events, .error (.terminal (.ipc message)))
  | .error e => (events, .error (.terminal e))

/-- Run a subtask that has been started. -/
def launch (role : Role) (s : Subtask) : List SubtaskEvent × Except ExecutorError SubtaskResult :=
  match executor.futureOf attempt role s with
  | .ok future => await attempt s future
  | .error e => ([], .error e)

/-- What is recorded while a subtask is launched and run, and its result. -/
def spawn (s : Subtask) : List SubtaskEvent × Except ExecutorError SubtaskResult :=
  spawnSubtask executor.catalog (executor.launch attempt) s

/-! ### Results of subtasks -/

/-- What becomes of a subtask that has ended. -/
inductive Verdict where
  | succeeded (result : SubtaskResult) (missing : Option Text)
  | failed (agentId : AgentId) (reason : Text)

def examine (s : Subtask) : Except ExecutorError SubtaskResult → Verdict
  | .ok r =>
    match checkDeclaredOutputsExist executor.catalog (attempt.pathExists s.id) s executor.subs with
    | .missingFatal reason =>
      .failed r.agentId ("subtask '" ++ s.id ++ "' (role '" ++ s.role
        ++ "') did not produce its declared output: " ++ reason)
    | .missingAdvisory reason => .succeeded r (some reason)
    | .present => .succeeded r none
  | .error e =>
    .failed .nil ("subtask '" ++ s.id ++ "' (role '" ++ s.role
      ++ "') failed: " ++ e.text executor.texts)

/-- The variables of the loop over the results of a batch. -/
structure Settled where
  results : Table SubtaskId SubtaskResult
  steps : List PlanStep := []
  firstFailure : Option Text := none
  failedIds : List (SubtaskId × AgentId × Text) := []

/-- A round of the loop over the results of a batch. -/
def settle (settled : Settled) (s : Subtask) : Verdict → Settled
  | .succeeded r missing =>
    { settled with
      results := AList.insert s.id r settled.results
      steps := settled.steps
        ++ (missing.map fun path => PlanStep.record (.outputMissing r.agentId s.id path)).toList
        ++ [.record (.completed r.agentId s.id true), .insert s.id r] }
  | .failed agentId reason =>
    { settled with
      steps := settled.steps ++ [.record (.completed agentId s.id false)]
      firstFailure := settled.firstFailure.or (some reason)
      failedIds := settled.failedIds ++ [(s.id, agentId, s.role)] }

def settleBatch (results : Table SubtaskId SubtaskResult) (batch : List Subtask) : Settled :=
  batch.foldl
    (fun settled s => settle settled s (executor.examine attempt s (executor.spawn attempt s).2))
    { results }

/-- What the failed subtasks of a batch show, after the given events. -/
def failures (log : List SubtaskEvent) (failedIds : List (SubtaskId × AgentId × Text)) :
    List FailedSubtask :=
  let events := executor.auditLog.eventsSnapshot log
  failedIds.map fun (id, agentId, role) => ⟨id, role, signalsForSubtask id [agentId] events⟩

/-! ### Batches -/

def spawnSteps (s : Subtask) : List PlanStep :=
  .launch s :: (executor.spawn attempt s).1.map .record

def runBatches (log : List SubtaskEvent) (plan : Plan) :
    Table SubtaskId SubtaskResult → List PlanStep → List (List Subtask) → Executed
  | results, steps, [] => ⟨steps, results, .ok ⟨plan, results, plan.finalOutput⟩⟩
  | results, steps, batch :: batches =>
    let joined := attempt.join.merge (batch.map (executor.spawnSteps attempt))
    let settled := executor.settleBatch attempt results batch
    let steps := steps ++ joined ++ settled.steps
    match settled.firstFailure with
    | some reason =>
      ⟨steps, settled.results,
        .error (.correctable reason
          (executor.failures (log ++ steps.filterMap PlanStep.recorded) settled.failedIds))⟩
    | none => runBatches log plan settled.results steps batches

/-- Check the roles and the parameters of the subtasks before any of them is launched. -/
def preValidate : List Subtask → Except ExecutorError Unit
  | [] => .ok ()
  | s :: subtasks =>
    match executor.catalog.lookup s.role with
    | none => .error (.correctable ("unknown role: " ++ s.role))
    | some role =>
      match role.validateParams (executor.subs.apply s.params) with
      | .error reason => .error (.correctable reason)
      | .ok () => preValidate subtasks

/-- Execute a plan, after the given events of earlier executions. -/
def executePlan (log : List SubtaskEvent) (plan : Plan) : Executed :=
  let adjusted := applyDepthToHops plan
  match topoBatches attempt.order adjusted with
  | .error reason => ⟨[], ∅, .error (.correctable reason)⟩
  | .ok batches =>
    match executor.preValidate adjusted.subtasks with
    | .error e => ⟨[], ∅, .error e⟩
    | .ok () => executor.runBatches attempt log plan ∅ [] batches

end PlanExecutor
