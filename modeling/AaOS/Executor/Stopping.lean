import AaOS.Executor.Loop

/-!
# Budgets and the executor

Both loops report the usage of a response and ignore whether the report was refused.  An agent
whose budget is exceeded is therefore stopped only when the turn of the refused report is its last
one for another reason.
-/

open List

open Dialogue

namespace ExecutorEvent

def IsRefusal : ExecutorEvent → Prop
  | reportUsage _ (.error (.budgetExceeded _)) => True
  | _ => False

def IsAction : ExecutorEvent → Prop
  | complete _ | invokeTool _ => True
  | reportUsage .. => False

end ExecutorEvent

/-- After a refused report nothing is asked of the model or a tool, and the execution is not
complete. -/
def BudgetStops {ρ : Type} (stopReason : ρ → ExecutionStopReason)
    (execution : List ExecutorEvent × Option ρ) : Prop :=
  Heeds ExecutorEvent.IsRefusal ExecutorEvent.IsAction (fun r => stopReason r ≠ .complete)
    execution.1 execution.2

/-- A turn heeds a refusal exactly when a refusal is followed by no call and ends the dialogue. -/
theorem turnHeeds_report_iff {σ ρ : Type} {fine : ρ → Prop} {usage : TokenUsage}
    {result : Except CoreError Unit} {toolUses : List ToolUse} {turn : Turn σ ρ} :
  TurnHeeds ExecutorEvent.IsRefusal ExecutorEvent.IsAction fine
      (.reportUsage usage result :: toolUses.map .invokeTool) turn
    ↔ ((ExecutorEvent.reportUsage usage result).IsRefusal →
        toolUses = [] ∧ ∃ r, turn = .done r ∧ fine r)
  := by
  constructor
  · rintro ⟨hsil, hends⟩ href
    refine ⟨?_, hends _ mem_cons_self href⟩
    cases toolUses with
    | nil => rfl
    | cons use uses =>
      exfalso
      apply (pairwise_cons.mp hsil).1 (.invokeTool use) _ href
      · trivial
      · simp
  · intro hstops
    constructor
    · apply pairwise_cons.mpr
      constructor
      · intro e hmem href
        rw [(hstops href).1] at hmem
        cases hmem
      · apply pairwise_map.mpr
        apply pairwise_of_forall
        intro _ _ href
        cases href
    · intro e hmem href
      obtain rfl | hmem := mem_cons.mp hmem
      · apply (hstops href).2
      · obtain ⟨use, _, rfl⟩ := mem_map.mp hmem
        cases href

namespace AgentExecutor

variable {σ : Type} (executor : AgentExecutor σ) (agentId : AgentId)

def Refuses (services : σ) (usage : TokenUsage) : Prop :=
  ∃ e, (executor.services.reportUsage agentId usage services).1 = .error (.budgetExceeded e)

/-- The tokens of the execution with those of the response exceed the limit, or the model was cut
off. -/
def EndsRun (cumulativeUsage : TokenUsage) (response : CompletionResponse) : Prop :=
  executor.config.maxTotalTokens < (cumulativeUsage.accumulate response.usage).total
    ∨ response.stopReason = .maxTokens

/-- The response ends `run`, or calls no tool where it should, in the last iteration. -/
def EndsHistory (cumulativeUsage : TokenUsage) (iterations : UInt32)
    (response : CompletionResponse) : Prop :=
  executor.EndsRun cumulativeUsage response
    ∨ response.stopReason = .toolUse ∧ toolUsesOf response.content = []
      ∧ executor.config.maxIterations ≤ iterations + 1

theorem isRefusal_iff {services : σ} {usage : TokenUsage} :
  (ExecutorEvent.reportUsage usage
      (executor.services.reportUsage agentId usage services).1).IsRefusal
    ↔ executor.Refuses agentId services usage
  := by
  unfold Refuses
  generalize (executor.services.reportUsage agentId usage services).1 = result
  rcases result with e | _
  · cases e <;> simp [ExecutorEvent.IsRefusal]
  · simp [ExecutorEvent.IsRefusal]

theorem nudgeOrComplete_short (s : LoopState σ) (content : List ContentBlock) :
  ¬ ∃ r, executor.nudgeOrComplete s content = .done r ∧ r.stopReason ≠ .complete
  := by
  rintro ⟨r, hdone, hshort⟩
  unfold nudgeOrComplete at hdone
  split_ifs at hdone
  cases hdone
  apply hshort rfl

/-- The usage is reported and tools are called; the turn is the last one, without a call and with
an incomplete result, exactly when `ends` holds. -/
def Reports {τ ρ : Type} (stopReason : ρ → ExecutionStopReason) (services : σ) (usage : TokenUsage)
    (ends : Prop) (reply : List ExecutorEvent × Turn τ ρ) : Prop :=
  ∃ toolUses turn, reply
      = (.reportUsage usage (executor.services.reportUsage agentId usage services).1
          :: toolUses.map .invokeTool, turn)
    ∧ ((toolUses = [] ∧ ∃ r, turn = .done r ∧ stopReason r ≠ .complete) ↔ ends)

section Reports

variable {executor agentId} {τ ρ : Type} {stopReason : ρ → ExecutionStopReason} {services : σ}
  {usage : TokenUsage} {ends : Prop} {reply : List ExecutorEvent × Turn τ ρ}

theorem Reports.turnHeeds_iff
    (hrep : executor.Reports agentId stopReason services usage ends reply) :
  TurnHeeds ExecutorEvent.IsRefusal ExecutorEvent.IsAction (fun r => stopReason r ≠ .complete)
      reply.1 reply.2
    ↔ (executor.Refuses agentId services usage → ends)
  := by
  obtain ⟨toolUses, turn, rfl, hends⟩ := hrep
  rw [turnHeeds_report_iff, isRefusal_iff, hends]

theorem Reports.ne_complete (hrep : executor.Reports agentId stopReason services usage ends reply)
    {e : ExecutorEvent} (hmem : e ∈ reply.1) (request : CompletionRequest) :
  e ≠ .complete request
  := by
  obtain ⟨toolUses, turn, rfl, -⟩ := hrep
  obtain rfl | hmem := mem_cons.mp hmem
  · rintro ⟨⟩
  · obtain ⟨use, -, rfl⟩ := mem_map.mp hmem
    rintro ⟨⟩

end Reports

theorem reports_runTurn (s : LoopState σ) (response : CompletionResponse) :
  executor.Reports agentId ExecutionResult.stopReason s.services response.usage
    (executor.EndsRun s.cumulativeUsage response) (executor.runTurn agentId s response)
  := by
  unfold Reports runTurn EndsRun
  dsimp only
  by_cases htotal : executor.config.maxTotalTokens
      < (s.cumulativeUsage.accumulate response.usage).total
  · rw [if_pos htotal]
    refine ⟨[], _, rfl, ?_⟩
    simp [htotal]
  · rw [if_neg htotal]
    cases hreason : response.stopReason with
    | endTurn | stopSequence =>
      refine ⟨[], _, rfl, ?_⟩
      simp only [htotal, reduceCtorEq, or_self, iff_false, true_and]
      apply nudgeOrComplete_short
    | maxTokens =>
      refine ⟨[], _, rfl, ?_⟩
      simp
    | toolUse =>
      dsimp only
      split_ifs with hnone
      · refine ⟨[], _, rfl, ?_⟩
        simp only [htotal, or_self, iff_false, true_and]
        apply nudgeOrComplete_short
      all_goals
        refine ⟨toolUsesOf response.content, _, rfl, ?_⟩
        simp [hnone, htotal]

theorem reports_historyTurn (s : HistoryState σ) (response : CompletionResponse) :
  executor.Reports agentId (fun r : ExecutionResultWithHistory => r.stopReason) s.services
    response.usage (executor.EndsHistory s.cumulativeUsage s.iterations response)
    (executor.historyTurn agentId s response)
  := by
  unfold Reports historyTurn EndsHistory EndsRun
  dsimp only
  by_cases htotal : executor.config.maxTotalTokens
      < (s.cumulativeUsage.accumulate response.usage).total
  · rw [if_pos htotal]
    refine ⟨[], _, rfl, ?_⟩
    simp [htotal]
  · rw [if_neg htotal]
    cases hreason : response.stopReason with
    | endTurn | stopSequence =>
      refine ⟨[], _, rfl, ?_⟩
      simp [htotal]
    | maxTokens =>
      refine ⟨[], _, rfl, ?_⟩
      simp
    | toolUse =>
      dsimp only
      split_ifs with hlast
      all_goals
        refine ⟨toolUsesOf response.content, _, rfl, ?_⟩
        simp [htotal, hlast]

/-! ### Executions -/

section Executions

variable (manifest : AgentManifest) (initialMessage : Text) (priorMessages : List Message)
  (systemPrompt : Text) (services : σ) (script : List LlmResult)

def RunVisits (s : LoopState σ) (response : CompletionResponse) : Prop :=
  ∃ system tools services', executor.systemPrompt manifest = .ok system
    ∧ executor.listTools agentId services = (.ok tools, services')
    ∧ (executor.runLoop agentId manifest system tools).Visits
        { services := services', messages := [.user initialMessage] } script s (.ok response)

/-- The execution of `runWithHistoryAndPrompt` has a turn in the state `s` with the response. -/
def HistoryVisits (s : HistoryState σ) (response : CompletionResponse) : Prop :=
  ∃ tools services', executor.listTools agentId services = (.ok tools, services')
    ∧ (executor.historyLoop agentId manifest systemPrompt tools).Visits
        { services := services'
          messages := priorMessages ++ [.user initialMessage]
          transcriptDelta := [.user initialMessage] } script s (.ok response)

theorem budgetStops_nil {ρ : Type} (stopReason : ρ → ExecutionStopReason) (result : Option ρ) :
  BudgetStops stopReason ([], result)
  := by
  constructor <;> simp

theorem budgetStops_loop_iff
    {τ ρ : Type} {stopReason : ρ → ExecutionStopReason}
    {d : Dialogue τ LlmResult ExecutorEvent ρ} {servicesOf : τ → σ}
    {ends : τ → CompletionResponse → Prop} (hask : ∀ s, ∃ request, d.ask s = .complete request)
    (herror : ∀ s e, (d.reply s (.error e)).1 = [])
    (hrep : ∀ s response, executor.Reports agentId stopReason (servicesOf s) response.usage
      (ends s response) (d.reply s (.ok response)))
    (start : τ) (script : List LlmResult) :
  BudgetStops stopReason (d.run start script)
    ↔ ∀ s response, d.Visits start script s (.ok response) →
      executor.Refuses agentId (servicesOf s) response.usage → ends s response
  := by
  have hloud : ∀ s, (d.ask s).IsAction := by
    intro s
    obtain ⟨request, hreq⟩ := hask s
    rw [hreq]
    trivial
  have hquiet : ∀ s, ¬ (d.ask s).IsRefusal := by
    intro s
    obtain ⟨request, hreq⟩ := hask s
    rw [hreq]
    apply not_false
  rw [BudgetStops, heeds_run_iff hloud hquiet]
  constructor
  · intro hall s response hvisit
    apply (hrep s response).turnHeeds_iff.mp
    apply hall s _ hvisit
  · rintro hall s (e | response) hvisit
    · rw [herror]
      constructor <;> simp
    · apply (hrep s response).turnHeeds_iff.mpr
      apply hall s response hvisit

theorem budgetStops_run_iff :
  BudgetStops ExecutionResult.stopReason
      (executor.run agentId manifest initialMessage services script)
    ↔ ∀ s response, executor.RunVisits agentId manifest initialMessage services script s response →
      executor.Refuses agentId s.services response.usage →
      executor.EndsRun s.cumulativeUsage response
  := by
  unfold run RunVisits
  rcases hsys : executor.systemPrompt manifest with message | system
  · simp [budgetStops_nil]
  · rcases htools : executor.listTools agentId services with ⟨message | tools, services'⟩
    · simp [budgetStops_nil]
    · have hloop := executor.budgetStops_loop_iff agentId
        (d := executor.runLoop agentId manifest system tools)
        (fun _ => ⟨_, rfl⟩) (fun _ _ => rfl) (executor.reports_runTurn agentId)
        { services := services', messages := [.user initialMessage] } script
      simpa using hloop

theorem budgetStops_history_iff :
  BudgetStops (fun r => r.stopReason)
      (executor.runWithHistoryAndPrompt agentId manifest initialMessage priorMessages systemPrompt
        services script)
    ↔ ∀ s response, executor.HistoryVisits agentId manifest initialMessage priorMessages
        systemPrompt services script s response →
      executor.Refuses agentId s.services response.usage →
      executor.EndsHistory s.cumulativeUsage s.iterations response
  := by
  unfold runWithHistoryAndPrompt HistoryVisits
  rcases htools : executor.listTools agentId services with ⟨message | tools, services'⟩
  · simp [budgetStops_nil]
  · have hloop := executor.budgetStops_loop_iff agentId
      (d := executor.historyLoop agentId manifest systemPrompt tools)
      (fun _ => ⟨_, rfl⟩) (fun _ _ => rfl) (executor.reports_historyTurn agentId)
      { services := services'
        messages := priorMessages ++ [.user initialMessage]
        transcriptDelta := [.user initialMessage] } script
    simpa using hloop

/-- An execution stops for the budget of the agent exactly when each refused response ends the loop
for another reason. -/
theorem budgetStops_iff :
  (BudgetStops ExecutionResult.stopReason
      (executor.run agentId manifest initialMessage services script)
    ↔ ∀ s response, executor.RunVisits agentId manifest initialMessage services script s response →
      executor.Refuses agentId s.services response.usage →
      executor.EndsRun s.cumulativeUsage response)
  ∧ (BudgetStops (fun r => r.stopReason)
      (executor.runWithHistoryAndPrompt agentId manifest initialMessage priorMessages systemPrompt
        services script)
    ↔ ∀ s response, executor.HistoryVisits agentId manifest initialMessage priorMessages
        systemPrompt services script s response →
      executor.Refuses agentId s.services response.usage →
      executor.EndsHistory s.cumulativeUsage s.iterations response)
  := by
  constructor
  · apply budgetStops_run_iff
  · apply budgetStops_history_iff

end Executions

end AgentExecutor

/-! ### The services in the process -/

/-- Services with an agent that may use ten tokens, where every tool call succeeds. -/
def tenTokenServices : InProcessAgentServices where
  toolRegistry := []
  canonicalize _ := none
  seconds _ := 0
  time _ := 0
  invokeTool _ _ _ registry := (.ok .null, registry)

def tenTokenManifest : AgentManifest where
  name := "writer"
  model := "model"
  systemPrompt := .inline "Write."
  capabilities := []
  budgetConfig := some ⟨10, 0⟩

def tenTokenState : InProcessState where
  registry :=
    { AgentRegistry.newWithLimit 100 with
      agents := (∅ : Table _ _).insert ⟨0⟩ (AgentProcess.new tenTokenManifest [] 0)
      activeCount := 1 }
  usageReported := []
  ticks := 0

def tenTokenExecutor : AgentExecutor InProcessState where
  services := tenTokenServices.agentServices
  config := {}
  texts := ⟨fun _ => [], fun _ => []⟩
  readToString _ := .error []

def twelveTokenResponse : CompletionResponse where
  content := [.toolUse "1" "file_write" .null]
  stopReason := .toolUse
  usage := ⟨6, 6⟩

/-- The agent acts after its budget of ten tokens is exceeded, in both loops. -/
theorem not_budgetStops_tenTokens :
  ¬ BudgetStops ExecutionResult.stopReason
      (tenTokenExecutor.run ⟨0⟩ tenTokenManifest [] tenTokenState [.ok twelveTokenResponse])
  ∧ ¬ BudgetStops (fun r => r.stopReason)
      (tenTokenExecutor.runWithHistoryAndPrompt ⟨0⟩ tenTokenManifest [] [] [] tenTokenState
        [.ok twelveTokenResponse])
  := by
  constructor
  · rw [AgentExecutor.budgetStops_run_iff]
    intro hall
    have hends := hall _ twelveTokenResponse ⟨_, _, _, rfl, rfl, .here⟩ ⟨⟨0, 10, 12⟩, rfl⟩
    revert hends
    simp only [AgentExecutor.EndsRun]
    decide
  · rw [AgentExecutor.budgetStops_history_iff]
    intro hall
    have hends := hall _ twelveTokenResponse ⟨_, _, rfl, .here⟩ ⟨⟨0, 10, 12⟩, rfl⟩
    revert hends
    simp only [AgentExecutor.EndsHistory, AgentExecutor.EndsRun]
    decide
