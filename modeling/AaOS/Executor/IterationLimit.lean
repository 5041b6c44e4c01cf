import AaOS.Executor.Answered
import AaOS.Executor.Termination
import AaOS.Lib.History

/-!
# The limit on iterations

`max_iterations` is the greatest number of requests in an execution.  The loop with a history keeps
to it, with one request when it is zero.  `run` looks at it only after a turn with tool calls;
`Overruns` says when it goes on.
-/

open List Dialogue

def ExecutorEvent.isComplete : ExecutorEvent → Bool
  | complete _ => true
  | _ => false

namespace ExecutorConfig

variable (config : ExecutorConfig)

/-- The greatest number of requests in an execution. -/
def requestLimit : Nat := max 1 config.maxIterations.toNat

/-- The requests are within the limit, and the execution ends when the model answers that many. -/
def WithinIterations {ρ : Type} (script : List LlmResult)
    (execution : List ExecutorEvent × Option ρ) : Prop :=
  execution.1.countP ExecutorEvent.isComplete ≤ config.requestLimit
    ∧ (config.requestLimit ≤ script.length → execution.2.isSome = true)

def totalUsage (responses : List CompletionResponse) : TokenUsage :=
  (responses.map CompletionResponse.usage).foldl TokenUsage.accumulate {}

/-- A response after others lets `run` go on. -/
structure Continues (before : List CompletionResponse) (response : CompletionResponse) :
    Prop where
  within : (totalUsage (before ++ [response])).total ≤ config.maxTotalTokens
  kind : (response.ThoughtOnly
      ∧ before.countP (·.ThoughtOnly) < config.commitNudges.toNat)
    ∨ (response.CallsTools ∧ before.length + 1 < config.maxIterations.toNat)

/-- The script begins with as many responses as there may be requests, each of which lets `run` go
on. -/
def Overruns (script : List LlmResult) : Prop :=
  ∃ responses rest, script = responses.map .ok ++ rest
    ∧ responses.length = config.requestLimit ∧ EachAfter config.Continues responses

theorem requestLimit_lt : config.requestLimit < 2 ^ 32 := by
  have hlt := config.maxIterations.toNat_lt
  unfold requestLimit
  omega

theorem totalUsage_concat (responses : List CompletionResponse) (response : CompletionResponse) :
  totalUsage (responses ++ [response]) = (totalUsage responses).accumulate response.usage
  := by
  rw [totalUsage, map_append, foldl_append]
  rfl

end ExecutorConfig

namespace AgentExecutor

open ExecutorConfig

variable {σ : Type} (executor : AgentExecutor σ) (agentId : AgentId)
  {manifest : AgentManifest} {system initialMessage : Text} {tools : List ToolDefinition}
  {services : σ} {answers script : List LlmResult} {responses : List CompletionResponse}

structure Tracks (responses : List CompletionResponse) (s : LoopState σ) : Prop where
  iterations : s.iterations.toNat = responses.length
  nudgesUsed : s.nudgesUsed.toNat = responses.countP (·.ThoughtOnly)
  cumulativeUsage : s.cumulativeUsage = totalUsage responses

/-! ### Requests of `run` -/

section Run

variable {executor} {agentId} {s s' : LoopState σ} {response : CompletionResponse}

theorem Tracks.toNat_iterations (htrack : Tracks responses s)
    (hlt : responses.length + 1 < 2 ^ 32) :
  (s.iterations + 1).toNat = responses.length + 1
  := by
  rw [UInt32.toNat_add, UInt32.toNat_one, htrack.iterations, Nat.mod_eq_of_lt hlt]

theorem Tracks.continues (htrack : Tracks responses s) (hlt : responses.length + 1 < 2 ^ 32)
    (hgoes : executor.RunGoesOn s response s') :
  executor.config.Continues responses response ∧ Tracks (responses ++ [response]) s'
  := by
  have husage : totalUsage (responses ++ [response])
      = s.cumulativeUsage.accumulate response.usage := by
    rw [totalUsage_concat, htrack.cumulativeUsage]
  have hiter : s'.iterations.toNat = (responses ++ [response]).length := by
    rw [hgoes.iterations, htrack.toNat_iterations hlt, length_append]
    rfl
  have hwith := hgoes.within
  rw [← husage] at hwith
  obtain ⟨hthink, hnudge, hused⟩ | ⟨hcalls, hlast, hused⟩ := hgoes.kind
  · have hnudge' : responses.countP (·.ThoughtOnly) < executor.config.commitNudges.toNat := by
      rw [← htrack.nudgesUsed]
      apply hnudge
    constructor
    · exact ⟨hwith, .inl ⟨hthink, hnudge'⟩⟩
    · refine ⟨hiter, ?_, hgoes.cumulativeUsage.trans husage.symm⟩
      have hbound := executor.config.commitNudges.toNat_lt
      rw [hused, UInt32.toNat_add, UInt32.toNat_one, htrack.nudgesUsed, countP_append,
        countP_singleton, Nat.mod_eq_of_lt (by omega)]
      simp [hthink]
  · constructor
    · refine ⟨hwith, .inr ⟨hcalls, ?_⟩⟩
      rw [← htrack.toNat_iterations hlt]
      apply hlast
    · refine ⟨hiter, ?_, hgoes.cumulativeUsage.trans husage.symm⟩
      rw [hused, htrack.nudgesUsed, countP_append, countP_singleton]
      simp [hcalls.not_thoughtOnly]

theorem Tracks.exists_next (agentId : AgentId) (htrack : Tracks responses s)
    (hlt : responses.length + 1 < 2 ^ 32) (hcon : executor.config.Continues responses response) :
  ∃ s', ((executor.runLoop agentId manifest system tools).reply s (.ok response)).2 = .next s'
  := by
  apply executor.exists_next_of_kind agentId
  · rw [htrack.cumulativeUsage, ← totalUsage_concat]
    apply hcon.within
  · obtain ⟨hthink, hnudge⟩ | ⟨hcalls, hlast⟩ := hcon.kind
    · left
      rw [← htrack.nudgesUsed] at hnudge
      exact ⟨hthink, hnudge⟩
    · right
      rw [← htrack.toNat_iterations hlt] at hlast
      exact ⟨hcalls, hlast⟩

theorem tracks_of_stateAfter
    (hlt : ∀ responses : List CompletionResponse, responses.length < answers.length →
      EachAfter executor.config.Continues responses → responses.length + 1 < 2 ^ 32)
    (hafter : (executor.runLoop agentId manifest system tools).stateAfter
      { services := services, messages := [.user initialMessage] } answers = some s) :
  ∃ responses, answers = responses.map .ok ∧ EachAfter executor.config.Continues responses
    ∧ Tracks responses s
  := by
  induction answers using reverseRecOn generalizing s with
  | nil =>
    cases hafter
    exact ⟨[], rfl, .nil, rfl, rfl, rfl⟩
  | append_singleton answers answer ih =>
    rw [length_append, length_singleton] at hlt
    obtain ⟨u, hu, hnext⟩ := stateAfter_concat_eq_some_iff.mp hafter
    have hlt' (responses : List CompletionResponse) (hlen : responses.length < answers.length) :=
      hlt responses (Nat.lt_succ_of_lt hlen)
    obtain ⟨responses, rfl, heach, htrack⟩ := ih hlt' hu
    obtain ⟨response, rfl, hgoes⟩ := executor.runGoesOn_of_next agentId hnext
    obtain ⟨hcon, htrack'⟩ := htrack.continues (hlt responses (by simp) heach) hgoes
    use responses ++ [response]
    exact ⟨by simp, heach.snoc hcon, htrack'⟩

theorem exists_stateAfter_of_continues
    (executor : AgentExecutor σ) (agentId : AgentId) (manifest : AgentManifest)
    (system initialMessage : Text) (tools : List ToolDefinition) (services : σ)
    (hlt : responses.length < 2 ^ 32) (heach : EachAfter executor.config.Continues responses) :
  ∃ s, (executor.runLoop agentId manifest system tools).stateAfter
    { services := services, messages := [.user initialMessage] } (responses.map .ok) = some s
  := by
  induction responses using reverseRecOn with
  | nil => exact ⟨_, rfl⟩
  | append_singleton responses response ih =>
    rw [length_append, length_singleton] at hlt
    obtain ⟨s, hs⟩ := ih (by omega) heach.of_append
    have hshort (responses' : List CompletionResponse)
        (hlen : responses'.length < (responses.map (.ok : _ → LlmResult)).length) :
        EachAfter executor.config.Continues responses' → responses'.length + 1 < 2 ^ 32 := by
      rw [length_map] at hlen
      omega
    obtain ⟨responses', heq, -, htrack⟩ := tracks_of_stateAfter hshort hs
    have hsame : responses = responses' := by
      apply map_injective_iff.mpr _ heq
      intro _ _ hok
      cases hok
      rfl
    subst hsame
    obtain ⟨s', hnext⟩ := htrack.exists_next agentId hlt heach.next
    use s'
    rw [map_append]
    exact stateAfter_concat_eq_some_iff.mpr ⟨s, hs, hnext⟩

theorem stateAfter_take_ne_none_iff
    (executor : AgentExecutor σ) (agentId : AgentId) (manifest : AgentManifest)
    (system initialMessage : Text) (tools : List ToolDefinition) (services : σ) :
  (executor.config.requestLimit ≤ script.length
      ∧ (executor.runLoop agentId manifest system tools).stateAfter
        { services := services, messages := [.user initialMessage] }
        (script.take executor.config.requestLimit) ≠ none)
    ↔ executor.config.Overruns script
  := by
  have hlimit := executor.config.requestLimit_lt
  constructor
  · rintro ⟨hle, hne⟩
    obtain ⟨s, hs⟩ := Option.ne_none_iff_exists'.mp hne
    have hshort (responses : List CompletionResponse)
        (hlen : responses.length < (script.take executor.config.requestLimit).length) :
        EachAfter executor.config.Continues responses → responses.length + 1 < 2 ^ 32 := by
      rw [length_take] at hlen
      omega
    obtain ⟨responses, htake, heach, -⟩ := tracks_of_stateAfter hshort hs
    refine ⟨responses, script.drop executor.config.requestLimit, ?_, ?_, heach⟩
    · rw [← htake, take_append_drop]
    · rw [← length_map (f := (Except.ok : _ → LlmResult)), ← htake, length_take]
      omega
  · rintro ⟨responses, rest, rfl, hlen, heach⟩
    constructor
    · simp [hlen]
    · rw [← hlen, ← length_map (f := (Except.ok : _ → LlmResult)), take_left]
      obtain ⟨s, hs⟩ := executor.exists_stateAfter_of_continues agentId manifest system
        initialMessage tools services (by omega) heach
      rw [hs]
      apply Option.some_ne_none

end Run

/-! ### Requests of both loops -/

theorem not_isComplete_of_ne {e : ExecutorEvent} (hne : ∀ request, e ≠ .complete request) :
  ¬ e.isComplete = true
  := by
  cases e with
  | complete request => exact absurd rfl (hne request)
  | reportUsage usage result | invokeTool use => apply Bool.false_ne_true

theorem not_isComplete_runLoop (s : LoopState σ) (answer : LlmResult) :
  ∀ e ∈ ((executor.runLoop agentId manifest system tools).reply s answer).1, ¬ e.isComplete = true
  := by
  cases answer with
  | error e => simp [runLoop]
  | ok response =>
    intro e hmem
    apply not_isComplete_of_ne
    apply (executor.reports_runTurn agentId s response).ne_complete hmem

theorem not_isComplete_historyLoop (s : HistoryState σ) (answer : LlmResult) :
  ∀ e ∈ ((executor.historyLoop agentId manifest system tools).reply s answer).1,
    ¬ e.isComplete = true
  := by
  cases answer with
  | error e => simp [historyLoop]
  | ok response =>
    intro e hmem
    apply not_isComplete_of_ne
    apply (executor.reports_historyTurn agentId s response).ne_complete hmem

theorem withinIterations_run_iff {τ ρ : Type} {config : ExecutorConfig}
    {d : Dialogue τ LlmResult ExecutorEvent ρ} (hask : ∀ s, (d.ask s).isComplete = true)
    (hreply : ∀ s answer, ∀ e ∈ (d.reply s answer).1, ¬ e.isComplete = true) {s : τ} :
  config.WithinIterations script (d.run s script)
    ↔ (config.requestLimit ≤ script.length →
        d.stateAfter s (script.take config.requestLimit) = none)
  := by
  rw [WithinIterations, countP_run_le_iff hask hreply]
  constructor
  · rintro ⟨hends, -⟩
    apply hends
  · intro hends
    refine ⟨hends, ?_⟩
    intro hle
    apply isSome_run_of_stateAfter_take (hends hle)

theorem withinIterations_of_no_request {ρ : Type} {config : ExecutorConfig} {result : ρ} :
  config.WithinIterations script ([], some result)
  := by
  constructor
  · simp
  · intro _
    rfl

theorem stateAfter_historyLoop {s t : HistoryState σ} (hs : s.iterations = 0)
    (hafter : (executor.historyLoop agentId manifest system tools).stateAfter s answers = some t) :
  t.iterations.toNat = answers.length
    ∧ (answers ≠ [] → answers.length < executor.config.maxIterations.toNat)
  := by
  induction answers using reverseRecOn generalizing t with
  | nil =>
    cases hafter
    rw [hs]
    exact ⟨rfl, by simp⟩
  | append_singleton answers answer ih =>
    obtain ⟨u, hu, hnext⟩ := stateAfter_concat_eq_some_iff.mp hafter
    obtain _ | response := answer
    · cases hnext
    obtain ⟨-, hiter, hlast⟩ := executor.historyTurn_next agentId hnext
    obtain ⟨hlen, hbef⟩ := ih hu
    have hbound := executor.config.maxIterations.toNat_lt
    have hnat : (u.iterations + 1).toNat = answers.length + 1 := by
      rw [UInt32.toNat_add, UInt32.toNat_one, hlen]
      apply Nat.mod_eq_of_lt
      by_cases hnil : answers = []
      · simp [hnil]
      · have hlt := hbef hnil
        omega
    rw [hiter, hnat, length_append]
    refine ⟨rfl, ?_⟩
    intro _
    rw [length_singleton, ← hnat]
    apply hlast

/-- `run` keeps to the limit exactly when it fails before its loop or the script does not overrun;
the loop with a history always does. -/
theorem within_iterations_iff (manifest : AgentManifest) (initialMessage : Text)
    (priorMessages : List Message) (systemPrompt : Text) (services : σ) (script : List LlmResult) :
  (executor.config.WithinIterations script
      (executor.run agentId manifest initialMessage services script)
    ↔ (∀ system tools services', executor.systemPrompt manifest = .ok system →
        executor.listTools agentId services = (.ok tools, services') →
        ¬ executor.config.Overruns script))
  ∧ executor.config.WithinIterations script
      (executor.runWithHistoryAndPrompt agentId manifest initialMessage priorMessages systemPrompt
        services script)
  := by
  constructor
  · unfold run
    rcases hsys : executor.systemPrompt manifest with message | system
    · simp [withinIterations_of_no_request]
    · rcases htools : executor.listTools agentId services with ⟨message | tools, services'⟩
      · simp [withinIterations_of_no_request]
      · dsimp only
        rw [withinIterations_run_iff (fun _ => rfl) (executor.not_isComplete_runLoop agentId),
          ← executor.stateAfter_take_ne_none_iff agentId manifest system initialMessage tools
            services']
        simp
  · unfold runWithHistoryAndPrompt
    rcases htools : executor.listTools agentId services with ⟨message | tools, services'⟩
    · apply withinIterations_of_no_request
    · dsimp only
      rw [withinIterations_run_iff (fun _ => rfl) (executor.not_isComplete_historyLoop agentId)]
      intro hle
      by_contra hne
      obtain ⟨t, ht⟩ := Option.ne_none_iff_exists'.mp hne
      obtain ⟨-, hlt⟩ := executor.stateAfter_historyLoop agentId rfl ht
      have hlen : (script.take executor.config.requestLimit).length
          = executor.config.requestLimit := by
        rw [List.length_take]
        omega
      rw [hlen] at hlt
      unfold requestLimit at hlt hle
      have hnil : script.take executor.config.requestLimit ≠ [] := by
        rw [← List.length_pos_iff, hlen]
        unfold requestLimit
        omega
      have hlast := hlt hnil
      omega

def oneTurnExecutor : AgentExecutor Unit :=
  { nudgingExecutor with config := { maxIterations := 1, commitNudges := 1 } }

/-- A model that ends its only turn without a tool call is nudged, and asked a second time. -/
theorem nudge_exceeds_iterations :
  oneTurnExecutor.config.requestLimit = 1
  ∧ (oneTurnExecutor.run ⟨1⟩ callManifest [] ()
      [.ok ⟨[.text "Hm.".toList], .endTurn, {}⟩]).1.countP ExecutorEvent.isComplete = 2
  ∧ ¬ oneTurnExecutor.config.WithinIterations [.ok ⟨[.text "Hm.".toList], .endTurn, {}⟩]
      (oneTurnExecutor.run ⟨1⟩ callManifest [] () [.ok ⟨[.text "Hm.".toList], .endTurn, {}⟩])
  := by
  have hlimit : oneTurnExecutor.config.requestLimit = 1 := rfl
  have hcount : (oneTurnExecutor.run ⟨1⟩ callManifest [] ()
      [.ok ⟨[.text "Hm."], .endTurn, {}⟩]).1.countP ExecutorEvent.isComplete = 2 := rfl
  refine ⟨hlimit, hcount, ?_⟩
  rintro ⟨hle, -⟩
  rw [hlimit, hcount] at hle
  omega

end AgentExecutor
