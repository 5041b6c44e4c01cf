import AaOS.Executor.Termination
import AaOS.Plan.Discipline

/-!
# The runner of subtasks

`run_subtask_inline` of `agentd/src/server.rs` spawns an agent for a subtask, runs its loop and
returns its last text.  The stop reason is recorded and not looked at, so the subtask fails only
when its role demands an output that is missing.  The session of a worker changes nothing here, and
is left out.
-/

open PlanExecutor

/-- The part of the server that runs subtasks. -/
structure SubtaskServer (σ : Type) where
  parse : Text → Except Text AgentManifest
  spawn : SubtaskId → AgentManifest → Except CoreError AgentId
  hasLlmClient : Bool
  services : AgentServices σ
  texts : MessageTexts
  readToString : Text → Except Text Text
  state : SubtaskId → σ
  answers : SubtaskId → Nat → LlmResult
  recorded : SubtaskId → List (AgentId × AgentEvent)
  dropped : SubtaskId → Bool

namespace SubtaskServer

variable {σ : Type} (server : SubtaskServer σ)

def agentExecutor (overrides : SubtaskExecutorOverrides) : AgentExecutor σ where
  services := server.services
  config :=
    { maxIterations := overrides.maxIterations
      maxOutputTokens := overrides.maxOutputTokens
      commitNudges := overrides.commitNudges }
  texts := server.texts
  readToString := server.readToString

/-- The answers of the model, as many as the loop can take. -/
def script (launch : SubtaskLaunch) : List LlmResult :=
  (List.range (AgentExecutor.turnBound (server.agentExecutor launch.overrides).config)).map
    (server.answers launch.subtaskId)

theorem isSome_loop (launch : SubtaskLaunch) (manifest : AgentManifest) (agentId : AgentId) :
  ((server.agentExecutor launch.overrides).run agentId manifest launch.message
    (server.state launch.subtaskId) (server.script launch)).2.isSome = true
  := by
  apply AgentExecutor.isSome_run
  simp [script]

/-- The result of the loop of an agent. -/
def loop (launch : SubtaskLaunch) (manifest : AgentManifest) (agentId : AgentId) :
    ExecutionResult :=
  ((server.agentExecutor launch.overrides).run agentId manifest launch.message
    (server.state launch.subtaskId) (server.script launch)).2.get
    (server.isSome_loop launch manifest agentId)

/-- The deadline of the subtask comes before the end of its loop. -/
def expires (launch : SubtaskLaunch) : Bool :=
  launch.deadline.isSome && server.dropped launch.subtaskId

def executeAgentForSubtask (launch : SubtaskLaunch) (manifest : AgentManifest)
    (agentId : AgentId) : List (AgentId × AgentEvent) × Except CoreError Text :=
  if server.hasLlmClient then
    let result := server.loop launch manifest agentId
    let begun := (agentId, .executionStarted (launch.message.take 100))
      :: server.recorded launch.subtaskId
    (if server.expires launch then begun
      else begun ++ [(agentId, .executionCompleted result.stopReason result.iterations)],
      .ok result.response)
  else ([], .error (.ipc "no LLM client configured for subtask execution"))

def failedFuture (launch : SubtaskLaunch) (message : Text) : RunnerFuture where
  agent := none
  events := []
  result := .error (.ipc message)
  dropped := server.dropped launch.subtaskId
  agent_eq := by
    rintro r ⟨⟩

def runSubtaskInline (launch : SubtaskLaunch) : RunnerFuture :=
  match AgentManifest.fromYaml server.parse launch.manifestYaml with
  | .error e =>
    server.failedFuture launch ("parse role manifest: " ++ e.text server.texts)
  | .ok manifest =>
    match server.spawn launch.subtaskId manifest with
    | .error e => server.failedFuture launch ("spawn subtask: " ++ e.text server.texts)
    | .ok agentId =>
      let executed := server.executeAgentForSubtask launch manifest agentId
      { agent := some agentId
        events := executed.1
        result := executed.2.map fun response =>
          ⟨launch.subtaskId, agentId, response, 0, 0⟩
        dropped := server.dropped launch.subtaskId
        agent_eq := by
          intro r hr
          cases hexecuted : executed.2 with
          | error e =>
            rw [hexecuted] at hr
            cases hr
          | ok response =>
            rw [hexecuted] at hr
            cases hr
            rfl }

def EndsWithError (launch : SubtaskLaunch) : Prop :=
  ∃ manifest agentId message,
    AgentManifest.fromYaml server.parse launch.manifestYaml = .ok manifest
      ∧ server.spawn launch.subtaskId manifest = .ok agentId
      ∧ server.hasLlmClient = true ∧ server.expires launch = false
      ∧ (server.loop launch manifest agentId).stopReason = .error message

theorem EndsWithError.raceDeadline_eq {launch : SubtaskLaunch}
    (hends : server.EndsWithError launch) :
  ∃ r, raceDeadline (server.runSubtaskInline launch) launch.deadline = .ok r
  := by
  obtain ⟨manifest, agentId, message, hman, hspawn, hllm, hexp, -⟩ := hends
  unfold raceDeadline runSubtaskInline
  simp only [hman, hspawn, executeAgentForSubtask, hllm, if_true]
  rw [expires] at hexp
  rw [hexp]
  exact ⟨_, rfl⟩

/-! ### Failed loops -/

/-- The attempt in which the server runs the subtasks. -/
def runs (attempt : Attempt) : Attempt := { attempt with runner := server.runSubtaskInline }

def LoopFails (executor : PlanExecutor) (attempt : Attempt) (s : Subtask) : Prop :=
  ∃ role, executor.catalog.lookup s.role = some role ∧ role.scaffold = none
    ∧ s.ttl.bind (·.maxHops) ≠ some 0 ∧ server.EndsWithError (executor.launchOf attempt role s)

/-- A subtask whose loop ends with an error is reported as failed, and none that depends on it is
launched. -/
def FailuresReported (executor : PlanExecutor) (attempt : Attempt) (plan : Plan)
    (executed : Executed) : Prop :=
  ∀ s, .launch s ∈ executed.steps → server.LoopFails executor attempt s →
    (∃ agentId, .record (.completed agentId s.id false) ∈ executed.steps)
      ∧ ∀ t, Relation.TransGen (PlanExecutor.collectedPlan plan).Depends s.id t.id →
        .launch t ∉ executed.steps

variable {server} {executor : PlanExecutor} {attempt : Attempt} {s : Subtask}

theorem LoopFails.spawn_eq (hfails : server.LoopFails executor (server.runs attempt) s) :
  ∃ r, (executor.spawn (server.runs attempt) s).2 = .ok r
  := by
  obtain ⟨role, hrole, hscaf, hhops, hends⟩ := hfails
  obtain ⟨r, hrace⟩ := hends.raceDeadline_eq
  use r
  simp only [PlanExecutor.spawn, spawnSubtask, hrole, if_neg hhops, PlanExecutor.launch,
    futureOf, hscaf, await]
  have hraced : raceDeadline ((server.runs attempt).runner
      (executor.launchOf (server.runs attempt) role s))
      (wallClockDeadline (server.runs attempt) s) = .ok r := hrace
  simp only [hraced]

theorem LoopFails.fails_iff (hfails : server.LoopFails executor (server.runs attempt) s) :
  executor.fails (server.runs attempt) s = true
    ↔ ∃ reason, checkDeclaredOutputsExist executor.catalog (attempt.pathExists s.id) s
        executor.subs = .missingFatal reason
  := by
  obtain ⟨r, hr⟩ := hfails.spawn_eq
  have hexist : (server.runs attempt).pathExists s.id = attempt.pathExists s.id := rfl
  simp only [fails, verdict, hr, examine, hexist]
  cases checkDeclaredOutputsExist executor.catalog (attempt.pathExists s.id) s executor.subs <;>
    simp [PlanExecutor.Verdict.failure]

/-- Failed loops are reported exactly when their roles demand an output and it is missing. -/
theorem failuresReported_iff (server : SubtaskServer σ) (executor : PlanExecutor)
    (attempt : Attempt) (log : List SubtaskEvent) (plan : Plan) :
  server.FailuresReported executor (server.runs attempt) plan
      (executor.executePlan (server.runs attempt) log plan)
    ↔ ∀ s, .launch s ∈ (executor.executePlan (server.runs attempt) log plan).steps →
      server.LoopFails executor (server.runs attempt) s →
      ∃ reason, checkDeclaredOutputsExist executor.catalog (attempt.pathExists s.id) s
        executor.subs = .missingFatal reason
  := by
  constructor
  · intro hrep s hlaun hfails
    apply hfails.fails_iff.mp
    apply (completed_mem_iff hlaun).mp (hrep s hlaun hfails).1
  · intro hmis s hlaun hfails
    have hfail := hfails.fails_iff.mpr (hmis s hlaun hfails)
    use (completed_mem_iff hlaun).mpr hfail
    intro t hdep ht
    obtain ⟨batches, hlaunc⟩ := exists_launches_of_launch hlaun
    obtain ⟨u, hid, hu, hnot⟩ := not_fails_of_depends hlaunc hdep ht rfl
    rw [launch_mem_steps_iff hlaunc] at hlaun hu
    obtain rfl := List.inj_on_of_nodup_map (nodup_attempted hlaunc.nodup) hu
      hlaun hid
    rw [hfail] at hnot
    cases hnot

end SubtaskServer

/-! ### A loop that fails unnoticed -/

def writerManifest : AgentManifest where
  name := "writer"
  model := "small"
  systemPrompt := .inline "Write."
  capabilities := []
  budgetConfig := none

/-- What the role of the writer is rendered to. -/
def writerYaml : Text := "name: writer\nmodel: small\nsystem_prompt: |\n  Write.\ncapabilities:\n"

/-- A server whose model refuses all requests. -/
def refusingServer : SubtaskServer Unit where
  parse yaml := if yaml = writerYaml then .ok writerManifest else .error "not the manifest"
  spawn _ _ := .ok ⟨1⟩
  hasLlmClient := true
  services := ⟨fun _ s => (.ok [], s), fun _ _ s => (.ok (), s), fun _ _ _ s => (.ok .null, s)⟩
  texts := ⟨fun _ => [], fun _ => []⟩
  readToString _ := .error []
  state _ := ()
  answers _ _ := .error .authError
  recorded _ := []
  dropped _ := false

theorem refusingServer_script (launch : SubtaskLaunch) :
  ∃ rest, refusingServer.script launch = .error .authError :: rest
  := by
  obtain ⟨n, hn⟩ : ∃ n,
      AgentExecutor.turnBound (refusingServer.agentExecutor launch.overrides).config = n + 1 :=
    Nat.exists_eq_succ_of_ne_zero (by simp [AgentExecutor.turnBound])
  rw [SubtaskServer.script, hn, List.range_succ_eq_map]
  exact ⟨_, rfl⟩

theorem refusingServer_loop (launch : SubtaskLaunch) :
  refusingServer.loop launch writerManifest ⟨1⟩
    = ⟨[], {}, 0, .error LlmError.authError.text⟩
  := by
  obtain ⟨rest, hscr⟩ := refusingServer_script launch
  apply Option.get_of_eq_some
  rw [hscr]
  rfl

/-- The loop fails, and the subtask is reported as a success. -/
theorem not_failuresReported_refusingServer :
  ¬ refusingServer.FailuresReported (executorOf writerCatalog)
      (refusingServer.runs (attemptWith (idleRunner ⟨1⟩))) writePlan
      ((executorOf writerCatalog).executePlan
        (refusingServer.runs (attemptWith (idleRunner ⟨1⟩))) [] writePlan)
  := by
  intro hrep
  have hlaunc : (executorOf writerCatalog).Launches
      (refusingServer.runs (attemptWith (idleRunner ⟨1⟩))) writePlan [[writeSubtask]] :=
    launches_writePlan (by rfl)
  have hlaun := launch_mem_of_singleton [] hlaunc
  have hfails : refusingServer.LoopFails (executorOf writerCatalog)
      (refusingServer.runs (attemptWith (idleRunner ⟨1⟩))) writeSubtask := by
    refine ⟨_, rfl, rfl, nofun, writerManifest, ⟨1⟩,
      LlmError.authError.text, rfl, rfl, rfl, rfl, ?_⟩
    rw [refusingServer_loop]
  obtain ⟨hcom, -⟩ := hrep writeSubtask hlaun hfails
  rw [completed_mem_iff hlaun, Bool.not_false, hfails.fails_iff] at hcom
  obtain ⟨reason, hreason⟩ := hcom
  cases hreason
