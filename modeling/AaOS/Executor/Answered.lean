import AaOS.Executor.Transcript
import AaOS.Executor.Turns

/-!
# Calls of tools and their results

The results of the tools that a message calls are to follow the message, in the order of the
calls.  `run` leaves calls without results when it nudges a model that called tools, and
`runWithHistoryAndPrompt` when it ends the execution with such a response.
-/

namespace Message

def toolUseId : Message → Option Text
  | .toolResult toolUseId _ _ => some toolUseId
  | _ => none

end Message

def resultIds (messages : List Message) : List Text :=
  (messages.takeWhile Message.isToolResult).filterMap Message.toolUseId

/-- Every message of the assistant is followed by the results of the tools it calls, in order. -/
def Answered : List Message → Prop
  | [] => True
  | .assistant content :: rest =>
    resultIds rest = (toolUsesOf content).map (·.id) ∧ Answered rest
  | _ :: rest => Answered rest

def StartsAnew (messages : List Message) : Prop :=
  ∀ message, messages.head? = some message → message.isToolResult = false

theorem StartsAnew.takeWhile_eq_nil {messages : List Message} (hstart : StartsAnew messages) :
  messages.takeWhile Message.isToolResult = []
  := by
  rcases messages with _ | ⟨message, messages⟩
  · rfl
  · apply List.takeWhile_cons_of_neg
    simp [hstart message rfl]

theorem resultIds_cons_of_isToolResult {message : Message} {toolUseId : Text}
    (hid : message.toolUseId = some toolUseId) (messages : List Message) :
  resultIds (message :: messages) = toolUseId :: resultIds messages
  := by
  rcases message with _ | _ | ⟨id, content, isError⟩ | _
  case toolResult =>
    cases hid
    rfl
  all_goals cases hid

theorem resultIds_append
    (messages : List Message) {added : List Message} (hstart : StartsAnew added) :
  resultIds (messages ++ added) = resultIds messages
  := by
  induction messages with
  | nil =>
    unfold resultIds
    rw [List.nil_append, hstart.takeWhile_eq_nil]
    rfl
  | cons message messages ih =>
    rcases message with _ | _ | _ | _
    case toolResult =>
      rw [List.cons_append, resultIds_cons_of_isToolResult rfl, resultIds_cons_of_isToolResult rfl,
        ih]
    all_goals rfl

namespace Answered

variable {messages added : List Message}

theorem append (hmsgs : Answered messages) (hadded : Answered added) (hstart : StartsAnew added) :
  Answered (messages ++ added)
  := by
  induction messages with
  | nil => apply hadded
  | cons message messages ih =>
    rcases message with _ | _ | _ | _
    case assistant =>
      obtain ⟨hids, hrest⟩ := hmsgs
      constructor
      · apply (resultIds_append messages hstart).trans hids
      · apply ih hrest
    all_goals apply ih hmsgs

theorem of_append (hans : Answered (messages ++ added)) :
  Answered added
  := by
  induction messages with
  | nil => apply hans
  | cons message messages ih =>
    rcases message with _ | _ | _ | _
    case assistant => apply ih hans.2
    all_goals apply ih hans

theorem append_iff (hmsgs : Answered messages) (hstart : StartsAnew added) :
  Answered (messages ++ added) ↔ Answered added
  := by
  constructor
  · apply of_append
  · intro hadded
    apply hmsgs.append hadded hstart

theorem of_forall_toolUseId (hall : ∀ message ∈ messages, message.toolUseId.isSome = true) :
  Answered messages
  := by
  induction messages with
  | nil => trivial
  | cons message messages ih =>
    rw [List.forall_mem_cons] at hall
    obtain ⟨hmsg, hrest⟩ := hall
    rcases message with _ | _ | _ | _
    case assistant => cases hmsg
    all_goals apply ih hrest

end Answered

theorem startsAnew_user (content : Text) (messages : List Message) :
  StartsAnew (.user content :: messages)
  := by
  rintro message ⟨⟩
  rfl

theorem startsAnew_assistant (content : List ContentBlock) (messages : List Message) :
  StartsAnew (.assistant content :: messages)
  := by
  rintro message ⟨⟩
  rfl

theorem startsAnew_nil : StartsAnew [] := by rintro message ⟨⟩

theorem answered_nil : Answered [] := trivial

theorem answered_user (content : Text) : Answered [.user content] := trivial

theorem answered_assistant_iff {content : List ContentBlock} {messages : List Message}
    (hstart : StartsAnew messages) (hmsgs : Answered messages) :
  Answered (.assistant content :: messages) ↔ toolUsesOf content = []
  := by
  have hids : resultIds messages = [] := by
    unfold resultIds
    rw [hstart.takeWhile_eq_nil]
    rfl
  rw [Answered, hids, eq_comm, List.map_eq_nil_iff]
  constructor
  · rintro ⟨hnone, -⟩
    apply hnone
  · intro hnone
    exact ⟨hnone, hmsgs⟩

namespace AgentExecutor

variable {σ : Type} (executor : AgentExecutor σ) (agentId : AgentId)

/-! ### Turns -/

theorem resultIds_invokeTools (uses : List ToolUse) (services : σ) :
  resultIds (executor.invokeTools agentId uses services).1 = uses.map (·.id)
  := by
  induction uses generalizing services with
  | nil => rfl
  | cons use uses ih =>
    rw [invokeTools]
    dsimp only
    rw [resultIds_cons_of_isToolResult, ih]
    · rfl
    · rcases (executor.services.invokeTool agentId use.name use.input services).1 <;> rfl

theorem answered_exchange (content : List ContentBlock) (services : σ) :
  Answered (.assistant content :: (executor.invokeTools agentId (toolUsesOf content) services).1)
  := by
  constructor
  · apply resultIds_invokeTools
  · apply Answered.of_forall_toolUseId
    intro message hmem
    obtain ⟨use, -, content, isError, rfl⟩ :=
      executor.exists_use_of_mem_invokeTools agentId _ services hmem
    rfl

def WithinTotal (cumulativeUsage : TokenUsage) (response : CompletionResponse) : Prop :=
  ¬ executor.config.maxTotalTokens < (cumulativeUsage.accumulate response.usage).total

/-- If the model is nudged because it ended its turn, it called no tool. -/
def NudgesWithoutCalls (s : LoopState σ) (response : CompletionResponse) : Prop :=
  executor.WithinTotal s.cumulativeUsage response →
    response.stopReason = .endTurn ∨ response.stopReason = .stopSequence →
    s.nudgesUsed < executor.config.commitNudges → toolUsesOf response.content = []

/-- If the response ends the execution without results, it calls no tool. -/
def EndsWithoutCalls (s : HistoryState σ) (response : CompletionResponse) : Prop :=
  executor.WithinTotal s.cumulativeUsage response →
    response.stopReason ≠ .toolUse → toolUsesOf response.content = []

theorem satisfies_nudgeOrComplete_iff
    {s : LoopState σ} (hs : Answered s.messages) (content : List ContentBlock) :
  (executor.nudgeOrComplete s content).Satisfies (fun s' => Answered s'.messages) (fun _ => True)
    ↔ (s.nudgesUsed < executor.config.commitNudges → toolUsesOf content = [])
  := by
  unfold nudgeOrComplete
  split_ifs with hnudge
  · have hiff : Answered (s.messages ++ [.assistant content, .user nudge])
        ↔ toolUsesOf content = [] := by
      rw [hs.append_iff (startsAnew_assistant _ _)]
      apply answered_assistant_iff (startsAnew_user _ _) (answered_user _)
    simpa [Turn.Satisfies, hnudge] using hiff
  · simp [Turn.Satisfies, hnudge]

theorem satisfies_runTurn_iff
    {s : LoopState σ} (hs : Answered s.messages) (response : CompletionResponse) :
  (executor.runTurn agentId s response).2.Satisfies (fun s' => Answered s'.messages)
      (fun _ => True)
    ↔ executor.NudgesWithoutCalls s response
  := by
  unfold runTurn NudgesWithoutCalls WithinTotal
  dsimp only
  by_cases htotal : executor.config.maxTotalTokens
      < (s.cumulativeUsage.accumulate response.usage).total
  · rw [if_pos htotal]
    simp [Turn.Satisfies, htotal]
  · rw [if_neg htotal]
    rcases hreason : response.stopReason
    case toolUse =>
      dsimp only
      split_ifs with hnone hlast
      · dsimp only
        rw [executor.satisfies_nudgeOrComplete_iff]
        · simp [hnone]
        · apply hs
      · simp [Turn.Satisfies]
      · have hans := hs.append (executor.answered_exchange agentId response.content
          (executor.services.reportUsage agentId response.usage s.services).2)
          (startsAnew_assistant _ _)
        simpa [Turn.Satisfies] using hans
    case maxTokens => simp [Turn.Satisfies]
    all_goals
      dsimp only
      rw [executor.satisfies_nudgeOrComplete_iff]
      · simp [htotal]
      · apply hs

theorem satisfies_historyTurn_iff {s : HistoryState σ}
    (hs : Answered s.messages ∧ Answered s.transcriptDelta) (response : CompletionResponse) :
  (executor.historyTurn agentId s response).2.Satisfies
      (fun s' => Answered s'.messages ∧ Answered s'.transcriptDelta)
      (fun r => Answered r.transcriptDelta)
    ↔ executor.EndsWithoutCalls s response
  := by
  obtain ⟨hmsgs, hdelta⟩ := hs
  unfold historyTurn EndsWithoutCalls WithinTotal
  dsimp only
  by_cases htotal : executor.config.maxTotalTokens
      < (s.cumulativeUsage.accumulate response.usage).total
  · rw [if_pos htotal]
    simp [Turn.Satisfies, htotal, hdelta]
  · rw [if_neg htotal]
    have hlast : Answered (s.transcriptDelta ++ [.assistant response.content])
        ↔ toolUsesOf response.content = [] := by
      rw [hdelta.append_iff (startsAnew_assistant _ _)]
      apply answered_assistant_iff startsAnew_nil answered_nil
    rcases hreason : response.stopReason
    case toolUse =>
      have hexc := executor.answered_exchange agentId response.content
        (executor.services.reportUsage agentId response.usage s.services).2
      have hdelta' := hdelta.append hexc (startsAnew_assistant _ _)
      have hmsgs' := hmsgs.append hexc (startsAnew_assistant _ _)
      dsimp only
      split_ifs
      · simpa [Turn.Satisfies] using hdelta'
      · simpa [Turn.Satisfies] using And.intro hmsgs' hdelta'
    all_goals simpa [Turn.Satisfies, htotal] using hlast

theorem answered_of_historyTurn_next {s s' : HistoryState σ}
    (hs : Answered s.messages ∧ Answered s.transcriptDelta) {response : CompletionResponse}
    (hnext : (executor.historyTurn agentId s response).2 = .next s') :
  Answered s'.messages ∧ Answered s'.transcriptDelta
  := by
  have hiff := executor.satisfies_historyTurn_iff agentId hs response
  rw [hnext] at hiff
  apply hiff.mpr
  intro _ hreason
  exact absurd (executor.historyTurn_next agentId hnext).1 hreason

/-! ### Executions -/

/-- If the event is a request for a completion, the calls in it are answered. -/
def AnsweredRequest (e : ExecutorEvent) : Prop :=
  ∀ request, e = .complete request → Answered request.messages

/-- The calls are answered in every request, and the result is good, exactly when each turn meets a
condition. -/
theorem answered_loop_iff
    {τ ρ : Type} {d : Dialogue τ LlmResult ExecutorEvent ρ} {P : τ → Prop} {Q : ρ → Prop}
    {C : τ → CompletionResponse → Prop} (hask : ∀ s, P s → AnsweredRequest (d.ask s))
    (hevent : ∀ s answer, ∀ e ∈ (d.reply s answer).1, ∀ request, e ≠ .complete request)
    (hnext : ∀ s answer s', P s → (d.reply s answer).2 = .next s' → AnsweredRequest (d.ask s') →
      P s')
    (herror : ∀ s e, P s → (d.reply s (.error e)).2.Satisfies P Q)
    (hturn : ∀ s response, P s → ((d.reply s (.ok response)).2.Satisfies P Q ↔ C s response))
    (start : τ) (hstart : P start) (script : List LlmResult) :
  ((∀ e ∈ (d.run start script).1, AnsweredRequest e) ∧ ∀ r ∈ (d.run start script).2, Q r)
    ↔ ∀ s response, d.Visits start script s (.ok response) → C s response
  := by
  rw [Dialogue.forall_run_iff (C := fun s answer => ∀ response, answer = .ok response →
    C s response) hask _ hnext _ hstart]
  · constructor
    · intro hall s response hvisit
      apply hall s _ hvisit response rfl
    · rintro hall s answer hvisit response rfl
      apply hall s response hvisit
  · intro s answer e hmem request heq
    cases hevent s answer e hmem request heq
  · rintro s (e | response) hs
    · constructor
      · rintro - response ⟨⟩
      · intro _
        apply herror s e hs
    · rw [hturn s response hs]
      constructor
      · rintro hcon response' ⟨⟩
        apply hcon
      · intro hcon
        apply hcon response rfl

section Executions

variable (manifest : AgentManifest) (initialMessage : Text) (priorMessages : List Message)
  (systemPrompt : Text) (services : σ) (script : List LlmResult)

theorem answered_runLoop_iff (system : Text) (tools : List ToolDefinition) (start : LoopState σ)
    (hstart : Answered start.messages) :
  (∀ e ∈ ((executor.runLoop agentId manifest system tools).run start script).1,
      AnsweredRequest e)
    ↔ ∀ s response, (executor.runLoop agentId manifest system tools).Visits start script s
        (.ok response) → executor.NudgesWithoutCalls s response
  := by
  have hloop := answered_loop_iff (d := executor.runLoop agentId manifest system tools)
    (P := fun s => Answered s.messages) (Q := fun _ => True) (C := executor.NudgesWithoutCalls)
  simp only [implies_true, and_true] at hloop
  apply hloop _ _ _ _ _ start hstart
  · rintro s hs request ⟨⟩
    apply hs
  · rintro s (error | response) e hmem request
    · cases hmem
    · apply (executor.reports_runTurn agentId s response).ne_complete hmem request
  · intro s answer s' hs hnext hask
    apply hask _ rfl
  · intro s e hs
    trivial
  · intro s response hs
    apply executor.satisfies_runTurn_iff agentId hs response

theorem answered_historyLoop_iff (tools : List ToolDefinition) (start : HistoryState σ)
    (hstart : Answered start.messages ∧ Answered start.transcriptDelta) :
  ((∀ e ∈ ((executor.historyLoop agentId manifest systemPrompt tools).run start script).1,
        AnsweredRequest e)
      ∧ ∀ r ∈ ((executor.historyLoop agentId manifest systemPrompt tools).run start script).2,
        Answered r.transcriptDelta)
    ↔ ∀ s response, (executor.historyLoop agentId manifest systemPrompt tools).Visits start script s
        (.ok response) → executor.EndsWithoutCalls s response
  := by
  apply answered_loop_iff (P := fun s => Answered s.messages ∧ Answered s.transcriptDelta)
    (Q := fun r : ExecutionResultWithHistory => Answered r.transcriptDelta) _ _ _ _ _ start hstart
  · rintro s hs request ⟨⟩
    apply hs.1
  · rintro s (error | response) e hmem request
    · cases hmem
    · apply (executor.reports_historyTurn agentId s response).ne_complete hmem request
  · rintro s (error | response) s' hs hnext -
    · cases hnext
    · apply executor.answered_of_historyTurn_next agentId hs hnext
  · intro s e hs
    apply hs.2
  · intro s response hs
    apply executor.satisfies_historyTurn_iff agentId hs response

/-- Calls are answered in every request of `run` exactly when the model is nudged only after
responses without calls. In `runWithHistoryAndPrompt` they are so in every request and in the
transcript exactly when the last response calls no tool, unless its results are in the transcript.
-/
theorem answered_iff {priorMessages : List Message} (hprior : Answered priorMessages) :
  ((∀ e ∈ (executor.run agentId manifest initialMessage services script).1, AnsweredRequest e)
    ↔ ∀ s response, executor.RunVisits agentId manifest initialMessage services script s response →
      executor.NudgesWithoutCalls s response)
  ∧ ((∀ e ∈ (executor.runWithHistoryAndPrompt agentId manifest initialMessage priorMessages
          systemPrompt services script).1, AnsweredRequest e)
      ∧ (∀ r ∈ (executor.runWithHistoryAndPrompt agentId manifest initialMessage priorMessages
          systemPrompt services script).2, Answered r.transcriptDelta)
    ↔ ∀ s response, executor.HistoryVisits agentId manifest initialMessage priorMessages
        systemPrompt services script s response → executor.EndsWithoutCalls s response)
  := by
  constructor
  · unfold run RunVisits
    rcases hsys : executor.systemPrompt manifest with message | system
    · simp
    · rcases htools : executor.listTools agentId services with ⟨message | tools, services'⟩
      · simp
      · have hloop := executor.answered_runLoop_iff agentId manifest script system tools
          { services := services', messages := [.user initialMessage] } trivial
        simpa using hloop
  · unfold runWithHistoryAndPrompt HistoryVisits
    rcases htools : executor.listTools agentId services with ⟨message | tools, services'⟩
    · simp [Answered]
    · have hinit := hprior.append (answered_user initialMessage) (startsAnew_user _ _)
      have hloop := executor.answered_historyLoop_iff agentId manifest systemPrompt script tools
        { services := services'
          messages := priorMessages ++ [.user initialMessage]
          transcriptDelta := [.user initialMessage] } ⟨hinit, trivial⟩
      simpa using hloop

end Executions

/-! ### A turn that is ended with a call -/

def nudgingExecutor : AgentExecutor Unit where
  services := nullServices
  config := { commitNudges := 1 }
  texts := ⟨fun _ => [], fun _ => []⟩
  readToString _ := .error []

/-- The manifest of the agent. -/
def callManifest : AgentManifest where
  name := "caller"
  model := "model"
  systemPrompt := .inline "Call."
  capabilities := []
  budgetConfig := none

def endTurnWithCall : CompletionResponse :=
  ⟨[.toolUse "t1" "file_read" .null], .endTurn, {}⟩

def nudgingRequest : CompletionRequest :=
  nudgingExecutor.request ⟨1⟩ callManifest "Call." []
    [.user [], .assistant endTurnWithCall.content, .user nudge]

/-- A call of an earlier execution, with its result. -/
def earlierCall : List Message :=
  [.user "Read.", .assistant [.toolUse "t0" "file_read" .null], .toolResult "t0" .null false]

/-- A call that is answered, and then a turn that is ended with one. -/
def twoCalls : List LlmResult :=
  [.ok ⟨[.toolUse "t1" "file_read" .null], .toolUse, {}⟩, .ok endTurnWithCall]

theorem answered_iff_endTurnWithCall :
  Answered earlierCall
    ∧ ((∀ e ∈ (nudgingExecutor.run ⟨1⟩ callManifest [] () twoCalls).1, AnsweredRequest e)
      ↔ ∀ s response, nudgingExecutor.RunVisits ⟨1⟩ callManifest [] () twoCalls s response →
        nudgingExecutor.NudgesWithoutCalls s response)
    ∧ ((∀ e ∈ (nudgingExecutor.runWithHistoryAndPrompt ⟨1⟩ callManifest [] earlierCall [] ()
            twoCalls).1, AnsweredRequest e)
        ∧ (∀ r ∈ (nudgingExecutor.runWithHistoryAndPrompt ⟨1⟩ callManifest [] earlierCall [] ()
            twoCalls).2, Answered r.transcriptDelta)
      ↔ ∀ s response, nudgingExecutor.HistoryVisits ⟨1⟩ callManifest [] earlierCall [] ()
          twoCalls s response → nudgingExecutor.EndsWithoutCalls s response)
  := by
  have hans : Answered earlierCall := ⟨rfl, trivial⟩
  constructor
  · apply hans
  · apply nudgingExecutor.answered_iff ⟨1⟩ callManifest [] [] () _ hans

/-- After a turn that ended with a call, `run` sends a request without its result, and
`runWithHistoryAndPrompt` returns such a transcript. -/
theorem not_answered_endTurnWithCall :
  ¬ (∀ e ∈ (nudgingExecutor.run ⟨1⟩ callManifest [] () [.ok endTurnWithCall]).1,
      AnsweredRequest e)
    ∧ ¬ ∀ r ∈ (nudgingExecutor.runWithHistoryAndPrompt ⟨1⟩ callManifest [] [] [] ()
        [.ok endTurnWithCall]).2, Answered r.transcriptDelta
  := by
  constructor
  · intro hall
    have hmem : .complete nudgingRequest
        ∈ (nudgingExecutor.run ⟨1⟩ callManifest [] () [.ok endTurnWithCall]).1 :=
      .tail _ (.tail _ (.head _))
    have hans := hall _ hmem _ rfl
    cases hans.1
  · intro hall
    have hdelta := hall _ rfl
    cases hdelta.1

end AgentExecutor
