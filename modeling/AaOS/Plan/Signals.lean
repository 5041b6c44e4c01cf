import AaOS.Plan.Discipline

/-!
# Signals about failed subtasks

When a batch fails, the executor looks in the audit log for signals about its failed subtasks.  It
knows the agent of a subtask only when its declared output is missing, and the text that it looks
for in the events of loops that used up their tokens is not the one that is recorded.
-/

open List PlanExecutor

namespace PlanExecutor

variable {executor : PlanExecutor} {attempt : Attempt}

/-- The future is awaited when the subtask is launched. -/
def Runs (executor : PlanExecutor) (attempt : Attempt) (s : Subtask) (future : RunnerFuture) :
    Prop :=
  ∃ role, executor.catalog.lookup s.role = some role ∧ s.ttl.bind (·.maxHops) ≠ some 0
    ∧ executor.futureOf attempt role s = .ok future

/-- The agent whose events are looked for when the subtask fails: that of a result before the
deadline. -/
def knownAgent (attempt : Attempt) (s : Subtask) (future : RunnerFuture) : AgentId :=
  match raceDeadline future (wallClockDeadline attempt s) with
  | .ok r => r.agentId
  | .error _ => .nil

def GuardFired (agentId : AgentId) (events : List SubtaskEvent) : Prop :=
  ∃ tool attemptCount, .agent agentId (.toolRepeatGuardFired tool attemptCount) ∈ events

def UsedUpTokens (agentId : AgentId) (future : RunnerFuture) : Prop :=
  ∃ iterations, (agentId, .executionCompleted .maxTokens iterations) ∈ future.events

/-- A launched subtask that fails, and the future and the agent that worked on it. -/
structure FailedRun (executor : PlanExecutor) (attempt : Attempt) (executed : Executed)
    (s : Subtask) (future : RunnerFuture) (agentId : AgentId) : Prop where
  launch : .launch s ∈ executed.steps
  fails : executor.fails attempt s = true
  runs : executor.Runs attempt s future
  agent : future.agent = some agentId

def logAfter (log : List SubtaskEvent) (executed : Executed) : List SubtaskEvent :=
  log ++ executed.steps.filterMap PlanStep.recorded

/-- The signals about the failed subtasks of an execution say what happened to their
agents. -/
def SignalsFaithful (executor : PlanExecutor) (attempt : Attempt) (log : List SubtaskEvent)
    (executed : Executed) : Prop :=
  ∀ s future agentId, executor.FailedRun attempt executed s future agentId →
    ∀ reason failures, executed.outcome = .error (.correctable reason failures) →
    ∀ f ∈ failures, f.subtaskId = s.id →
      (GuardFired agentId (logAfter log executed) → .toolRepeatGuard ∈ f.observedSignals)
        ∧ (UsedUpTokens agentId future → .maxTokens ∈ f.observedSignals)

/-! ### Signals -/

variable {agentId : AgentId}

theorem guard_mem_signalsForSubtask {id : SubtaskId} {events : List SubtaskEvent} :
  .toolRepeatGuard ∈ signalsForSubtask id [agentId] events ↔ GuardFired agentId events
  := by
  rw [mem_signalsForSubtask]
  constructor
  · rintro ⟨event, hevent, hsig⟩
    obtain hother | ⟨-, agentId', hmem, tool, attemptCount, rfl⟩ := signalOf_eq_some hsig
    · cases hother
    · obtain rfl := mem_singleton.mp hmem
      exact ⟨tool, attemptCount, hevent⟩
  · rintro ⟨tool, attemptCount, hevent⟩
    use .agent agentId (.toolRepeatGuardFired tool attemptCount), hevent
    simp [signalOf]

theorem maxTokens_notMem_signalsForSubtask (id : SubtaskId) (agentIds : List AgentId)
    (events : List SubtaskEvent) :
  .maxTokens ∉ signalsForSubtask id agentIds events
  := by
  rw [mem_signalsForSubtask]
  rintro ⟨event, -, hsig⟩
  obtain hother | ⟨hother, -⟩ := signalOf_eq_some hsig <;> cases hother

/-! ### Failures -/

variable {s : Subtask} {future : RunnerFuture}

theorem Runs.spawn_eq (hruns : executor.Runs attempt s future) :
  (executor.spawn attempt s).2 = (await attempt s future).2
  := by
  obtain ⟨role, hrole, hhops, hfut⟩ := hruns
  simp only [spawn, spawnSubtask, hrole, if_neg hhops, launch, hfut]

theorem await_of_raceDeadline {e : CoreError}
    (hrace : raceDeadline future (wallClockDeadline attempt s) = .error e) :
  ∃ e', (await attempt s future).2 = .error e'
  := by
  unfold await
  rw [hrace]
  split
  · rename_i heq
    cases heq
  · split_ifs <;> exact ⟨_, rfl⟩
  · exact ⟨_, rfl⟩

theorem Runs.verdict_eq (hruns : executor.Runs attempt s future)
    (hfails : executor.fails attempt s = true) :
  ∃ reason, executor.verdict attempt s = .failed (knownAgent attempt s future) reason
  := by
  unfold fails at hfails
  unfold knownAgent
  unfold verdict at hfails ⊢
  rw [hruns.spawn_eq] at hfails ⊢
  cases hrace : raceDeadline future (wallClockDeadline attempt s) with
  | ok r =>
    have hawait : (await attempt s future).2 = .ok r := by
      unfold await
      rw [hrace]
    rw [hawait] at hfails ⊢
    unfold examine at hfails ⊢
    dsimp only at hfails ⊢
    split at hfails
    · exact ⟨_, rfl⟩
    all_goals cases hfails
  | error e =>
    obtain ⟨e', hawait⟩ := await_of_raceDeadline hrace
    rw [hawait]
    exact ⟨_, rfl⟩

theorem mem_failures_iff {batch : List Subtask} {why : Text} (hnodup : (batch.map (·.id)).Nodup)
    (hs : s ∈ batch) (hver : executor.verdict attempt s = .failed agentId why)
    (log : List SubtaskEvent) (f : FailedSubtask) :
  f ∈ executor.failures log (batch.filterMap (fun t => (executor.verdict attempt t).failedId t))
      ∧ f.subtaskId = s.id
    ↔ f = ⟨s.id, s.role, signalsForSubtask s.id [agentId] (executor.auditLog.eventsSnapshot log)⟩
  := by
  rw [failures, mem_map]
  constructor
  · rintro ⟨⟨⟨id, agentId', role⟩, hfail, rfl⟩, hid⟩
    obtain ⟨t, ht, hfail⟩ := mem_filterMap.mp hfail
    cases htver : executor.verdict attempt t with
    | succeeded r missing =>
      rw [htver] at hfail
      cases hfail
    | failed agentId' why' =>
      rw [htver] at hfail
      cases hfail
      obtain rfl := inj_on_of_nodup_map hnodup ht hs hid
      rw [hver] at htver
      cases htver
      rfl
  · rintro rfl
    refine ⟨⟨(s.id, agentId, s.role), ?_, rfl⟩, rfl⟩
    apply mem_filterMap.mpr
    use s, hs
    rw [hver]
    rfl

theorem exists_batch_of_fails {log : List SubtaskEvent} {plan : Plan}
    (hlaunc : .launch s ∈ (executor.executePlan attempt log plan).steps)
    (hfails : executor.fails attempt s = true) :
  ∃ (batch : List Subtask) (reason : Text), s ∈ batch ∧ (batch.map (·.id)).Nodup
    ∧ (executor.executePlan attempt log plan).outcome = .error (.correctable reason
      (executor.failures (logAfter log (executor.executePlan attempt log plan))
        (batch.filterMap (fun t => (executor.verdict attempt t).failedId t))))
  := by
  obtain ⟨batches, hlaun⟩ := exists_launches_of_launch hlaunc
  have hatt := (launch_mem_steps_iff hlaun).mp hlaunc
  have hsteps := steps_executePlan log hlaun
  have heq := executePlan_of_launches log hlaun
  have hnot {b : List Subtask} (hb : executor.batchFails attempt b = false) : s ∉ b := by
    intro hs
    apply any_eq_false.mp hb s hs hfails
  cases hout : (executor.executePlan attempt log plan).outcome with
  | ok result =>
    exfalso
    rw [heq] at hout
    obtain ⟨hnone, -⟩ := runBatches_eq_ok hout
    rw [attempted_eq_self hnone] at hatt
    obtain ⟨batch, hbatch, hs⟩ := mem_flatten.mp hatt
    apply hnot (hnone batch hbatch) hs
  | error e =>
    rw [heq] at hout
    obtain ⟨earlier, batch, later, reason, rfl, hear, hbatch, rfl⟩ := runBatches_eq_error hout
    rw [attempted_of_fails hear hbatch] at hatt hsteps
    have hs : s ∈ batch := by
      rw [flatten_append, mem_append] at hatt
      obtain hs | hs := hatt
      · obtain ⟨b, hb, hs⟩ := mem_flatten.mp hs
        cases hnot (hear b hb) hs
      · simpa using hs
    have hnodup : (batch.map (·.id)).Nodup := by
      have hnodup := hlaun.nodup
      rw [flatten_append, flatten_cons, map_append, map_append] at hnodup
      apply hnodup.of_append_right.of_append_left
    use batch, reason, hs, hnodup
    rw [nil_append, ← hsteps]
    rfl

theorem FailedRun.outcome_eq {log : List SubtaskEvent} {plan : Plan}
    (hrun : executor.FailedRun attempt (executor.executePlan attempt log plan) s future agentId) :
  ∃ reason failures,
    (executor.executePlan attempt log plan).outcome = .error (.correctable reason failures)
    ∧ ∀ f, f ∈ failures ∧ f.subtaskId = s.id
      ↔ f = ⟨s.id, s.role, signalsForSubtask s.id [knownAgent attempt s future]
          (executor.auditLog.eventsSnapshot
            (logAfter log (executor.executePlan attempt log plan)))⟩
  := by
  obtain ⟨why, hver⟩ := hrun.runs.verdict_eq hrun.fails
  obtain ⟨batch, reason, hs, hnodup, hout⟩ := exists_batch_of_fails hrun.launch hrun.fails
  refine ⟨reason, _, hout, ?_⟩
  apply mem_failures_iff hnodup hs hver

/-- The signals are faithful exactly when the guard fired for agents of failed subtasks only where
the executor looks for it, and none of these agents used up its tokens. -/
theorem signalsFaithful_iff
    (executor : PlanExecutor) (attempt : Attempt) (log : List SubtaskEvent) (plan : Plan) :
  executor.SignalsFaithful attempt log (executor.executePlan attempt log plan)
    ↔ ∀ s future agentId,
      executor.FailedRun attempt (executor.executePlan attempt log plan) s future agentId →
        (GuardFired agentId (logAfter log (executor.executePlan attempt log plan)) →
          GuardFired (knownAgent attempt s future) (executor.auditLog.eventsSnapshot
            (logAfter log (executor.executePlan attempt log plan))))
        ∧ ¬ UsedUpTokens agentId future
  := by
  constructor
  · intro hfaith s future agentId hrun
    obtain ⟨reason, failures, hout, hfails⟩ := hrun.outcome_eq
    obtain ⟨hmem, hid⟩ := (hfails _).mpr rfl
    obtain ⟨hguard, htoken⟩ := hfaith s future agentId hrun reason failures hout _ hmem hid
    constructor
    · intro hfired
      apply guard_mem_signalsForSubtask.mp (hguard hfired)
    · intro hused
      apply maxTokens_notMem_signalsForSubtask _ _ _ (htoken hused)
  · intro hcon s future agentId hrun reason failures hout f hf hid
    obtain ⟨hguard, htoken⟩ := hcon s future agentId hrun
    obtain ⟨reason', failures', hout', hfails⟩ := hrun.outcome_eq
    rw [hout] at hout'
    cases hout'
    obtain rfl := (hfails f).mp ⟨hf, hid⟩
    constructor
    · intro hfired
      apply guard_mem_signalsForSubtask.mpr (hguard hfired)
    · intro hused
      exact absurd hused htoken

end PlanExecutor

/-! ### Signals that are missed -/

def repeatingRunner (_ : SubtaskLaunch) : RunnerFuture where
  agent := some ⟨1⟩
  events := [(⟨1⟩, .toolRepeatGuardFired "echo" 3)]
  result := .error (.ipc [])
  dropped := true
  agent_eq := by
    rintro r ⟨⟩

def exhaustedRunner (launch : SubtaskLaunch) : RunnerFuture where
  agent := some ⟨1⟩
  events := [(⟨1⟩, .executionCompleted .maxTokens 1)]
  result := .ok ⟨launch.subtaskId, ⟨1⟩, [], 0, 0⟩
  dropped := false
  agent_eq := by
    rintro r ⟨⟩
    rfl

def timedSubtask : Subtask where
  id := "write"
  role := "writer"
  params := .obj [("output", .str "/data/report")]
  ttl := some ⟨none, some 1000000000⟩

def timedPlan : Plan where
  subtasks := [timedSubtask]
  finalOutput := "report"

/-- A catalog whose role demands that its output is written. -/
def strictCatalog : RoleCatalog :=
  AList.insert "writer"
    { name := "writer", model := [],
      parameters := AList.insert "output" ⟨.path, true⟩ ∅,
      capabilities := ["file_write: \x7boutput\x7d"],
      systemPrompt := [], messageTemplate := [], budget := ⟨0⟩, requireDeclaredOutput := true } ∅

def attemptWithout (runner : SubtaskLaunch → RunnerFuture) : Attempt :=
  { attemptWith runner with pathExists := fun _ _ => false }

theorem launches_timedPlan (attempt : Attempt) :
  (executorOf strictCatalog).Launches attempt timedPlan [[timedSubtask]]
  := by
  apply launches_singleton <;> rfl

theorem failedRun_timedPlan (runner : SubtaskLaunch → RunnerFuture)
    (hfails : (executorOf strictCatalog).fails (attemptWithout runner) timedSubtask = true)
    (hagent : ∀ launch, (runner launch).agent = some ⟨1⟩) :
  ∃ launch, (executorOf strictCatalog).FailedRun (attemptWithout runner)
    ((executorOf strictCatalog).executePlan (attemptWithout runner) [] timedPlan)
    timedSubtask (runner launch) ⟨1⟩
  := by
  obtain ⟨launch, hruns⟩ : ∃ launch, (executorOf strictCatalog).Runs (attemptWithout runner)
      timedSubtask (runner launch) := by
    exact ⟨_, _, rfl, by decide, rfl⟩
  use launch
  constructor
  case launch => apply launch_mem_of_singleton [] (launches_timedPlan _)
  case fails => apply hfails
  case runs => apply hruns
  case agent => apply hagent

/-- What is recorded while the agent repeats its call. -/
theorem logAfter_repeatingRunner :
  logAfter []
      ((executorOf strictCatalog).executePlan (attemptWithout repeatingRunner) [] timedPlan)
    = [.started "write" "writer",
        .agent ⟨1⟩ (.toolRepeatGuardFired "echo" 3),
        .ttlExpired "write" "wall_clock_exceeded",
        .completed .nil "write" false]
  := by
  rw [logAfter, steps_executePlan [] (launches_timedPlan _)]
  rfl

/-- The guard fired for an agent whose time was over, another agent used up its tokens, and neither
is told. -/
theorem not_signalsFaithful_timedPlan :
  ¬ (executorOf strictCatalog).SignalsFaithful (attemptWithout repeatingRunner) []
      ((executorOf strictCatalog).executePlan (attemptWithout repeatingRunner) [] timedPlan)
    ∧ ¬ (executorOf strictCatalog).SignalsFaithful (attemptWithout exhaustedRunner) []
      ((executorOf strictCatalog).executePlan (attemptWithout exhaustedRunner) [] timedPlan)
  := by
  constructor
  · intro hfaith
    obtain ⟨launch, hrun⟩ := failedRun_timedPlan repeatingRunner rfl (fun _ => rfl)
    obtain ⟨reason, failures, hout, hfails⟩ := hrun.outcome_eq
    obtain ⟨hmem, hid⟩ := (hfails _).mpr rfl
    obtain ⟨hguard, -⟩ := hfaith _ _ _ hrun reason failures hout _ hmem hid
    have hfired : PlanExecutor.GuardFired ⟨1⟩ (PlanExecutor.logAfter []
        ((executorOf strictCatalog).executePlan (attemptWithout repeatingRunner) []
          timedPlan)) := by
      use "echo", 3
      rw [logAfter_repeatingRunner]
      apply List.mem_cons_of_mem _ List.mem_cons_self
    obtain ⟨tool, attemptCount, hmis⟩ := PlanExecutor.guard_mem_signalsForSubtask.mp (hguard hfired)
    have hsnap : SubtaskEvent.agent .nil (.toolRepeatGuardFired tool attemptCount)
        ∈ PlanExecutor.logAfter [] ((executorOf strictCatalog).executePlan
          (attemptWithout repeatingRunner) [] timedPlan) := hmis
    rw [logAfter_repeatingRunner] at hsnap
    simp [AgentId.nil] at hsnap
  · intro hfaith
    obtain ⟨launch, hrun⟩ := failedRun_timedPlan exhaustedRunner rfl (fun _ => rfl)
    obtain ⟨reason, failures, hout, hfails⟩ := hrun.outcome_eq
    obtain ⟨hmem, hid⟩ := (hfails _).mpr rfl
    obtain ⟨-, htoken⟩ := hfaith _ _ _ hrun reason failures hout _ hmem hid
    apply PlanExecutor.maxTokens_notMem_signalsForSubtask _ _ _ (htoken _)
    exact ⟨1, List.mem_singleton_self _⟩
