import AaOS.Lib.Effect
import AaOS.Executor.Stopping

/-!
# The audit of usage

The executor reports the usage of each response to the services, which record it unless the budget
refuses it (`report_usage` of `aaos-runtime/src/services.rs`).  So the audit log has the usage that
the budget covered, and the result has the usage of all responses, modulo 2^64.
-/

open List

open Dialogue

def AgentRegistry.covers (registry : AgentRegistry) (now later : UInt64) (id : AgentId)
    (usage : TokenUsage) : Bool :=
  match registry.agents.lookup id with
  | none => false
  | some process =>
    match process.budgetTracker with
    | none => true
    | some tracker => usage.total = 0
        || (tracker.maybeReset now later).usedTokens + usage.total ≤ tracker.config.maxTokens

theorem AgentRegistry.trackTokenUsage_eq_ok_iff
    {registry : AgentRegistry} {now later : UInt64} {id : AgentId} {usage : TokenUsage} :
  (registry.trackTokenUsage now later id usage).1 = .ok ()
    ↔ registry.covers now later id usage = true
  := by
  unfold trackTokenUsage covers
  rcases registry.agents.lookup id with _ | process
  · simp
  dsimp only
  rcases process.budgetTracker with _ | tracker
  · simp
  dsimp only
  by_cases hzero : usage.total = 0
  · simp [hzero]
  · rw [if_pos (UInt64.pos_iff_ne_zero.mpr hzero), BudgetTracker.track]
    by_cases hexc : tracker.config.maxTokens
        < (tracker.maybeReset now later).usedTokens + usage.total
    · simp [hexc, hzero]
    · simp [hexc, hzero, UInt64.not_lt.mp hexc]

/-! ### Recorded usage -/

/-- The usage that an event of the executor leaves in the audit log: a report that is accepted. -/
def ExecutorEvent.recorded : ExecutorEvent → List TokenUsage
  | .reportUsage usage (.ok ()) => [usage]
  | _ => []

theorem flatMap_recorded_invokeTool (uses : List ToolUse) :
  (uses.map ExecutorEvent.invokeTool).flatMap ExecutorEvent.recorded = []
  := by
  simp [ExecutorEvent.recorded]

namespace InProcessAgentServices

variable (services : InProcessAgentServices) (agentId : AgentId)

def covers (s : InProcessState) (usage : TokenUsage) : Bool :=
  s.registry.covers (services.seconds s.ticks) (services.seconds (s.ticks + 1)) agentId usage

/-- The audit log grows by what the report leaves in it: the usage that the budget covers. -/
theorem usageReported_reportUsage (s : InProcessState) (usage : TokenUsage) :
  (services.reportUsage agentId usage s).2.usageReported
    = s.usageReported
      ++ (ExecutorEvent.reportUsage usage (services.reportUsage agentId usage s).1).recorded.map
        (agentId, ·)
  := by
  unfold reportUsage
  rcases s.registry.trackTokenUsage (services.seconds s.ticks) (services.seconds (s.ticks + 1))
    agentId usage with ⟨_ | _, registry⟩
  · exact (append_nil _).symm
  · rfl

theorem recorded_reportUsage (s : InProcessState) (usage : TokenUsage) :
  (ExecutorEvent.reportUsage usage (services.reportUsage agentId usage s).1).recorded
    = if services.covers agentId s usage then [usage] else []
  := by
  have hcover : (s.registry.trackTokenUsage (services.seconds s.ticks)
      (services.seconds (s.ticks + 1)) agentId usage).1 = .ok ()
      ↔ services.covers agentId s usage = true := AgentRegistry.trackTokenUsage_eq_ok_iff
  unfold reportUsage
  rcases htrack : s.registry.trackTokenUsage (services.seconds s.ticks)
    (services.seconds (s.ticks + 1)) agentId usage with ⟨e | _, registry⟩ <;> rw [htrack] at hcover
  · rw [if_neg]
    · rfl
    · rw [← hcover]
      rintro ⟨⟩
  · rw [if_pos (hcover.mp rfl)]
    rfl

end InProcessAgentServices

/-! ### Sums -/

/-- The states of the services before the turns of an execution, and the answers of the model. -/
abbrev ServiceTurns : Type := List (InProcessState × LlmResult)

namespace ServiceTurns

variable (services : InProcessAgentServices) (agentId : AgentId)

/-- The usage of the response of a turn, if the test has this outcome for it. -/
def turnUsage (test : InProcessState → TokenUsage → Bool) (outcome : Bool) :
    InProcessState × LlmResult → List TokenUsage
  | (_, .error _) => []
  | (s, .ok response) => if test s response.usage = outcome then [response.usage] else []

def usages (test : InProcessState → TokenUsage → Bool) (outcome : Bool) (turns : ServiceTurns) :
    List TokenUsage :=
  turns.flatMap (turnUsage test outcome)

/-- The number of tokens of a kind. -/
def tokens (kind : TokenUsage → UInt64) (usages : List TokenUsage) : Nat :=
  (usages.map fun usage => (kind usage).toNat).sum

def accumulate (cumulative : TokenUsage) : LlmResult → TokenUsage
  | .error _ => cumulative
  | .ok response => cumulative.accumulate response.usage

theorem tokens_append (kind : TokenUsage → UInt64) (usages later : List TokenUsage) :
  tokens kind (usages ++ later) = tokens kind usages + tokens kind later
  := by
  rw [tokens, map_append, sum_append]
  rfl

theorem usages_cons_ok (test : InProcessState → TokenUsage → Bool) (outcome : Bool)
    (s : InProcessState) (response : CompletionResponse) (turns : ServiceTurns) :
  usages test outcome ((s, .ok response) :: turns)
    = (if test s response.usage = outcome then [response.usage] else [])
      ++ usages test outcome turns
  := rfl

theorem toNat_foldl_accumulate {kind : TokenUsage → UInt64}
    (hkind : ∀ usage other, kind (usage.accumulate other) = kind usage + kind other)
    (test : InProcessState → TokenUsage → Bool) (turns : ServiceTurns) (cumulative : TokenUsage) :
  (kind ((turns.map Prod.snd).foldl accumulate cumulative)).toNat
    = ((kind cumulative).toNat + tokens kind (usages test true turns)
      + tokens kind (usages test false turns)) % 2 ^ 64
  := by
  induction turns generalizing cumulative with
  | nil => simp [usages, tokens, Nat.mod_eq_of_lt (kind cumulative).toNat_lt]
  | cons turn turns ih =>
    obtain ⟨s, _ | response⟩ := turn
    · rw [map_cons, foldl_cons, ih]
      rfl
    · rw [map_cons, foldl_cons, ih, accumulate, hkind, UInt64.toNat_add]
      have hsin : tokens kind [response.usage] = (kind response.usage).toNat := Nat.add_zero _
      have hnone : tokens kind [] = 0 := rfl
      rw [usages_cons_ok, usages_cons_ok, tokens_append, tokens_append]
      cases test s response.usage
      · rw [if_neg Bool.false_ne_true, if_pos rfl, hsin, hnone]
        omega
      · rw [if_pos rfl, if_neg Bool.false_ne_true.symm, hsin, hnone]
        omega

def kinds : List (TokenUsage → UInt64) := [TokenUsage.inputTokens, TokenUsage.outputTokens]

/-- The usage of the result of an execution is what its events leave in the audit log. -/
def Complete (events : List ExecutorEvent) (usage : TokenUsage) : Prop :=
  ∀ kind ∈ kinds, tokens kind (events.flatMap ExecutorEvent.recorded) = (kind usage).toNat

/-- The tokens that the budget covers are fewer than 2^64, and the others are none modulo 2^64. -/
def Covered (turns : ServiceTurns) : Prop :=
  ∀ kind ∈ kinds, tokens kind (usages (services.covers agentId) true turns) < 2 ^ 64
    ∧ 2 ^ 64 ∣ tokens kind (usages (services.covers agentId) false turns)

variable {services agentId}

theorem complete_iff {turns : ServiceTurns} {events : List ExecutorEvent}
    (hevent : events.flatMap ExecutorEvent.recorded = usages (services.covers agentId) true turns) :
  Complete events ((turns.map Prod.snd).foldl accumulate {}) ↔ Covered services agentId turns
  := by
  rw [Complete, Covered, hevent]
  apply forall₂_congr
  intro kind hkind
  have hsum : (∀ usage other, kind (usage.accumulate other) = kind usage + kind other)
      ∧ (kind {}).toNat = 0 := by
    simp only [kinds, mem_cons, not_mem_nil, or_false] at hkind
    obtain rfl | rfl := hkind
    all_goals exact ⟨fun _ _ => rfl, rfl⟩
  rw [toNat_foldl_accumulate hsum.1 (services.covers agentId), hsum.2]
  omega

theorem complete_nil :
  Complete [] {} ↔ Covered services agentId []
  := @complete_iff services agentId [] [] rfl

end ServiceTurns

/-! ### Executions -/

namespace AgentExecutor

def inProcess (services : InProcessAgentServices) (config : ExecutorConfig) (texts : MessageTexts)
    (readToString : Text → Except Text Text) : AgentExecutor InProcessState where
  services := services.agentServices
  config := config
  texts := texts
  readToString := readToString

section Loops

variable (services : InProcessAgentServices) (config : ExecutorConfig) (texts : MessageTexts)
  (readToString : Text → Except Text Text) (agentId : AgentId) (manifest : AgentManifest)
  (system : Text) (tools : List ToolDefinition)

theorem reply_runLoop (s : LoopState InProcessState) (answer : LlmResult) :
  let turn := ((inProcess services config texts readToString).runLoop agentId manifest system
    tools).reply s answer
  turn.1.flatMap ExecutorEvent.recorded
      = ServiceTurns.turnUsage (services.covers agentId) true (s.services, answer)
    ∧ turn.2.Satisfies
      (fun s' => s'.cumulativeUsage = ServiceTurns.accumulate s.cumulativeUsage answer)
      (fun r => r.usage = ServiceTurns.accumulate s.cumulativeUsage answer)
  := by
  obtain e | response := answer
  · exact ⟨rfl, rfl⟩
  rw [ServiceTurns.turnUsage, ← services.recorded_reportUsage,
    ← append_nil (ExecutorEvent.recorded _)]
  simp only [runLoop, runTurn, nudgeOrComplete]
  split_ifs
  · exact ⟨rfl, rfl⟩
  all_goals
    rcases response.stopReason
  all_goals
    refine ⟨?_, rfl⟩
    first
      | rfl
      | exact congrArg _ (flatMap_recorded_invokeTool _)

theorem reply_historyLoop (s : HistoryState InProcessState) (answer : LlmResult) :
  let turn := ((inProcess services config texts readToString).historyLoop agentId manifest system
    tools).reply s answer
  turn.1.flatMap ExecutorEvent.recorded
      = ServiceTurns.turnUsage (services.covers agentId) true (s.services, answer)
    ∧ turn.2.Satisfies
      (fun s' => s'.cumulativeUsage = ServiceTurns.accumulate s.cumulativeUsage answer)
      (fun r => r.usage = ServiceTurns.accumulate s.cumulativeUsage answer)
  := by
  obtain e | response := answer
  · exact ⟨rfl, rfl⟩
  rw [ServiceTurns.turnUsage, ← services.recorded_reportUsage,
    ← append_nil (ExecutorEvent.recorded _)]
  simp only [historyLoop, historyTurn]
  split_ifs
  · exact ⟨rfl, rfl⟩
  all_goals
    rcases response.stopReason
  all_goals
    refine ⟨?_, rfl⟩
    first
      | rfl
      | exact congrArg _ (flatMap_recorded_invokeTool _)

end Loops

section Executions

variable (executor : AgentExecutor InProcessState) (agentId : AgentId) (manifest : AgentManifest)
  (initialMessage : Text) (services : InProcessState) (script : List LlmResult)

/-- The turns of `run`. -/
def runTurns : ServiceTurns :=
  match executor.systemPrompt manifest with
  | .error _ => []
  | .ok system =>
    match executor.listTools agentId services with
    | (.error _, _) => []
    | (.ok tools, services) =>
      ((executor.runLoop agentId manifest system tools).turns
        { services, messages := [.user initialMessage] } script).map
          fun turn => (turn.1.services, turn.2)

/-- The turns of `runWithHistoryAndPrompt`. -/
def historyTurns (priorMessages : List Message) (systemPrompt : Text) : ServiceTurns :=
  match executor.listTools agentId services with
  | (.error _, _) => []
  | (.ok tools, services) =>
    ((executor.historyLoop agentId manifest systemPrompt tools).turns
      { services
        messages := priorMessages ++ [.user initialMessage]
        transcriptDelta := [.user initialMessage] } script).map
          fun turn => (turn.1.services, turn.2)

end Executions

section Covered

variable (services : InProcessAgentServices) (config : ExecutorConfig) (texts : MessageTexts)
  (readToString : Text → Except Text Text) (agentId : AgentId) (manifest : AgentManifest)
  (initialMessage : Text) (state : InProcessState) (script : List LlmResult)

theorem complete_run_iff :
  let executor := inProcess services config texts readToString
  let run := executor.run agentId manifest initialMessage state script
  ∀ r, run.2 = some r →
    (ServiceTurns.Complete run.1 r.usage
      ↔ (executor.runTurns agentId manifest initialMessage state script).Covered services agentId)
  := by
  intro executor run r hr
  revert hr
  simp only [run]
  unfold AgentExecutor.run runTurns
  rcases executor.systemPrompt manifest with message | system
  · rintro ⟨⟩
    exact ServiceTurns.complete_nil
  rcases executor.listTools agentId state with ⟨message | tools, state'⟩
  · rintro ⟨⟩
    exact ServiceTurns.complete_nil
  intro hr
  have hreply := reply_runLoop services config texts readToString agentId manifest system tools
  rw [eq_foldl_turns LoopState.cumulativeUsage ExecutionResult.usage
    (fun s answer => (hreply s answer).2) hr, ← ServiceTurns.complete_iff, map_map]
  · rfl
  · rw [ServiceTurns.usages, flatMap_map]
    exact flatMap_run (fun _ => rfl) (fun s answer => (hreply s answer).1)

theorem complete_runWithHistoryAndPrompt_iff (priorMessages : List Message) (systemPrompt : Text) :
  let executor := inProcess services config texts readToString
  let run := executor.runWithHistoryAndPrompt agentId manifest initialMessage priorMessages
    systemPrompt state script
  ∀ r, run.2 = some r →
    (ServiceTurns.Complete run.1 r.usage
      ↔ (executor.historyTurns agentId manifest initialMessage state script priorMessages
        systemPrompt).Covered services agentId)
  := by
  intro executor run r hr
  revert hr
  simp only [run]
  unfold runWithHistoryAndPrompt historyTurns
  rcases executor.listTools agentId state with ⟨message | tools, state'⟩
  · rintro ⟨⟩
    exact ServiceTurns.complete_nil
  intro hr
  have hreply := reply_historyLoop services config texts readToString agentId manifest systemPrompt
    tools
  rw [eq_foldl_turns HistoryState.cumulativeUsage (fun r : ExecutionResultWithHistory => r.usage)
    (fun s answer => (hreply s answer).2) hr, ← ServiceTurns.complete_iff, map_map]
  · rfl
  · rw [ServiceTurns.usages, flatMap_map]
    exact flatMap_run (fun _ => rfl) (fun s answer => (hreply s answer).1)

end Covered

/-- A report that is accepted, and no other one, is added to the audit log.  In both loops, the
usage that is returned is what the reports add to the log exactly when the budget covers the tokens
of the responses. -/
theorem complete_iff_covered (services : InProcessAgentServices) (config : ExecutorConfig)
    (texts : MessageTexts) (readToString : Text → Except Text Text) (agentId : AgentId)
    (manifest : AgentManifest) (initialMessage : Text) (priorMessages : List Message)
    (systemPrompt : Text) (state : InProcessState) (script : List LlmResult) :
  let executor := inProcess services config texts readToString
  let turns := executor.runTurns agentId manifest initialMessage state script
  let turns' := executor.historyTurns agentId manifest initialMessage state script priorMessages
    systemPrompt
  let run := executor.run agentId manifest initialMessage state script
  let run' := executor.runWithHistoryAndPrompt agentId manifest initialMessage priorMessages
    systemPrompt state script
  (∀ s usage, (services.reportUsage agentId usage s).2.usageReported
      = s.usageReported
        ++ (ExecutorEvent.reportUsage usage (services.reportUsage agentId usage s).1).recorded.map
          (agentId, ·))
    ∧ (∀ r, run.2 = some r →
      (ServiceTurns.Complete run.1 r.usage ↔ turns.Covered services agentId))
    ∧ ∀ r, run'.2 = some r →
      (ServiceTurns.Complete run'.1 r.usage ↔ turns'.Covered services agentId)
  := by
  intro executor turns turns' run run'
  refine ⟨services.usageReported_reportUsage agentId, ?_, ?_⟩
  · apply complete_run_iff
  · apply complete_runWithHistoryAndPrompt_iff

def finalResponse (usage : TokenUsage) : CompletionResponse where
  content := [.text "Done."]
  stopReason := .endTurn
  usage := usage

def callingResponse (usage : TokenUsage) : CompletionResponse where
  content := [.toolUse "1" "file_write" .null]
  stopReason := .toolUse
  usage := usage

/-- An agent that may use ten tokens gets a response with a tool call and six tokens and a final one
with two, in both loops: the log has the eight tokens of the result. -/
theorem complete_iff_covered_eightTokens :
  let executor := inProcess tenTokenServices {} ⟨fun _ => [], fun _ => []⟩ fun _ => .error []
  let script := [.ok (callingResponse ⟨3, 3⟩), .ok (finalResponse ⟨1, 1⟩)]
  let run := executor.run ⟨0⟩ tenTokenManifest [] tenTokenState script
  let run' := executor.runWithHistoryAndPrompt ⟨0⟩ tenTokenManifest [] [.user "Write."] []
    tenTokenState script
  (run.1.flatMap ExecutorEvent.recorded = [⟨3, 3⟩, ⟨1, 1⟩]
      ∧ ∃ r, run.2 = some r ∧ r.usage = ⟨4, 4⟩ ∧ ServiceTurns.Complete run.1 r.usage)
    ∧ ∃ r, run'.2 = some r ∧ r.usage = ⟨4, 4⟩ ∧ ServiceTurns.Complete run'.1 r.usage
  := by
  intro executor script run run'
  obtain ⟨-, hrun, hrun'⟩ := complete_iff_covered tenTokenServices {} ⟨fun _ => [], fun _ => []⟩
    (fun _ => .error []) ⟨0⟩ tenTokenManifest [] [.user "Write."] [] tenTokenState script
  refine ⟨⟨rfl, _, rfl, rfl, (hrun _ rfl).mpr ?_⟩, _, rfl, rfl, (hrun' _ rfl).mpr ?_⟩
  all_goals
    unfold ServiceTurns.Covered
    decide

/-- An agent with a budget of ten tokens gets a response with twelve, of which the audit log has
none. -/
theorem not_complete_twelveTokens :
  let executor := inProcess tenTokenServices {} ⟨fun _ => [], fun _ => []⟩ fun _ => .error []
  let script := [.ok (finalResponse ⟨6, 6⟩)]
  let run := executor.run ⟨0⟩ tenTokenManifest [] tenTokenState script
  let run' := executor.runWithHistoryAndPrompt ⟨0⟩ tenTokenManifest [] [] [] tenTokenState script
  (∃ r, run.2 = some r ∧ ¬ ServiceTurns.Complete run.1 r.usage)
    ∧ ∃ r, run'.2 = some r ∧ ¬ ServiceTurns.Complete run'.1 r.usage
  := by
  intro executor script run run'
  refine ⟨⟨_, rfl, ?_⟩, _, rfl, ?_⟩
  all_goals
    unfold ServiceTurns.Complete
    decide

end AgentExecutor
