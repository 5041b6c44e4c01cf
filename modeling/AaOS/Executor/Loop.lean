import AaOS.Executor.Services
import AaOS.Lib.Dialogue

/-!
# The executor

`aaos-llm/src/executor.rs` asks the model for a completion, invokes the tools of the response,
gives their results back, and repeats.  `run` and `runWithHistoryAndPrompt` differ in the history
they keep, and only the first nudges a model that ended its turn without a tool call.  A loop is a
dialogue with the model, whose answers are a script.
-/

/-! ### Completions -/

/-- A block of content in a response of the model. -/
inductive ContentBlock where
  | text (text : Text)
  | toolUse (id name : Text) (input : Json)

def ContentBlock.asText : ContentBlock → Option Text
  | .text content => some content
  | .toolUse .. => none

inductive LlmStopReason where
  | endTurn
  | toolUse
  | maxTokens
  | stopSequence
deriving DecidableEq, Repr

/-- A message of the conversation. -/
inductive Message where
  | user (content : Text)
  | assistant (content : List ContentBlock)
  | toolResult (toolUseId : Text) (content : Json) (isError : Bool)
  | summary (content : Text) (messagesSummarized : UInt32) (sourceRange : Nat × Nat)

structure CompletionRequest where
  agentId : AgentId
  model : Text
  system : Text
  messages : List Message
  tools : List ToolDefinition
  maxTokens : UInt32

/-- A response of the model. -/
structure CompletionResponse where
  content : List ContentBlock
  stopReason : LlmStopReason
  usage : TokenUsage

inductive LlmError where
  | httpError (message : Text)
  | apiError (status : UInt16) (message : Text)
  | parseError (message : Text)
  | authError
  | rateLimited (retryAfterMs : UInt64)
  | unsupportedModel (model : Text)
  | other (message : Text)

/-- The text of an error of the client. -/
def LlmError.text : LlmError → Text
  | httpError message => "HTTP request failed: " ++ message
  | apiError status message =>
    "API returned error: " ++ (toString status).toList ++ " — " ++ message
  | parseError message => "failed to parse API response: " ++ message
  | authError => "authentication failed — check API key"
  | rateLimited retryAfterMs =>
    "rate limited — retry after " ++ (toString retryAfterMs).toList ++ "ms"
  | unsupportedModel model => "model not supported: " ++ model
  | other message => message

/-- What the client of the model returns. -/
abbrev LlmResult : Type := Except LlmError CompletionResponse

/-- The text of the last text block, or the given text if there is none. -/
def lastTextOf (content : List ContentBlock) (lastText : Text) : Text :=
  content.foldl
    (fun last block =>
      match block with
      | .text text => text
      | .toolUse .. => last)
    lastText

/-- A request to invoke a tool. -/
structure ToolUse where
  id : Text
  name : Text
  input : Json

/-- The requests to invoke tools. -/
def toolUsesOf (content : List ContentBlock) : List ToolUse :=
  content.filterMap fun block =>
    match block with
    | .text _ => none
    | .toolUse id name input => some ⟨id, name, input⟩

/-! ### Executions -/

/-- The configuration of an executor. -/
structure ExecutorConfig where
  maxIterations : UInt32 := 50
  maxTotalTokens : UInt64 := 5000000
  maxOutputTokens : UInt32 := 16384
  commitNudges : UInt32 := 0

inductive ExecutionStopReason where
  | complete
  | maxIterations
  | maxTokens
  | truncated
  | error (message : Text)
deriving DecidableEq, Repr

/-- The text of a stop reason. -/
def ExecutionStopReason.text : ExecutionStopReason → Text
  | complete => "complete"
  | maxIterations => "max_iterations"
  | maxTokens => "max_tokens"
  | truncated => "truncated"
  | error message => "error: " ++ message

/-- The result of an execution. -/
structure ExecutionResult where
  response : Text
  usage : TokenUsage
  iterations : UInt32
  stopReason : ExecutionStopReason

/-- The result of an execution, with the messages it added. -/
structure ExecutionResultWithHistory extends ExecutionResult where
  transcriptDelta : List Message

/-- An event of an execution. -/
inductive ExecutorEvent where
  | complete (request : CompletionRequest)
  | reportUsage (usage : TokenUsage) (result : Except CoreError Unit)
  | invokeTool (use : ToolUse)

/-- The executor of agents. -/
structure AgentExecutor (σ : Type) where
  services : AgentServices σ
  config : ExecutorConfig
  texts : MessageTexts
  readToString : Text → Except Text Text

/-- The variables of the loop of `run`, with the state of the services. -/
structure LoopState (σ : Type) where
  services : σ
  messages : List Message
  cumulativeUsage : TokenUsage := {}
  iterations : UInt32 := 0
  lastText : Text := []
  nudgesUsed : UInt32 := 0

/-- The variables of the loop of `runWithHistoryAndPrompt`, with the state of the services. -/
structure HistoryState (σ : Type) where
  services : σ
  messages : List Message
  transcriptDelta : List Message
  cumulativeUsage : TokenUsage := {}
  iterations : UInt32 := 0
  lastText : Text := []

namespace AgentExecutor

variable {σ : Type} (executor : AgentExecutor σ) (agentId : AgentId)

def invokeTools : List ToolUse → σ → List Message × σ
  | [], services => ([], services)
  | use :: uses, services =>
    let (result, services) := executor.services.invokeTool agentId use.name use.input services
    let message := match result with
      | .ok result => .toolResult use.id result false
      | .error e => .toolResult use.id (.str (e.text executor.texts)) true
    let (messages, services) := invokeTools uses services
    (message :: messages, services)

def nudge : Text :=
  ("You ended your turn without calling a tool. "
    ++ "Your execution contract requires you to call "
    ++ "file_write (or your designated output tool) with "
    ++ "your final report. Either call it now with whatever "
    ++ "findings you have, or explain in one sentence what "
    ++ "is blocking you. Do not emit another thought-only "
    ++ "response.").toList

section Loops

variable (manifest : AgentManifest) (system : Text) (tools : List ToolDefinition)

/-- The request for a completion of the messages. -/
def request (messages : List Message) : CompletionRequest where
  agentId := agentId
  model := manifest.model
  system := system
  messages := messages
  tools := tools
  maxTokens := executor.config.maxOutputTokens

/-- The end of a turn of `run` without tool calls: nudge the model, or accept the response. -/
def nudgeOrComplete (s : LoopState σ) (content : List ContentBlock) :
    Turn (LoopState σ) ExecutionResult :=
  if s.nudgesUsed < executor.config.commitNudges then
    .next { s with
      nudgesUsed := s.nudgesUsed + 1
      messages := s.messages ++ [.assistant content, .user nudge] }
  else .done ⟨s.lastText, s.cumulativeUsage, s.iterations, .complete⟩

def runTurn (s : LoopState σ) (response : CompletionResponse) :
    List ExecutorEvent × Turn (LoopState σ) ExecutionResult :=
  let (result, services) := executor.services.reportUsage agentId response.usage s.services
  let report := .reportUsage response.usage result
  let s := { s with
    services := services
    iterations := s.iterations + 1
    cumulativeUsage := s.cumulativeUsage.accumulate response.usage
    lastText := lastTextOf response.content s.lastText }
  let stop reason := .done ⟨s.lastText, s.cumulativeUsage, s.iterations, reason⟩
  if executor.config.maxTotalTokens < s.cumulativeUsage.total then ([report], stop .maxTokens)
  else
    match response.stopReason with
    | .endTurn | .stopSequence => ([report], executor.nudgeOrComplete s response.content)
    | .maxTokens => ([report], stop .truncated)
    | .toolUse =>
      let toolUses := toolUsesOf response.content
      if toolUses = [] then ([report], executor.nudgeOrComplete s response.content)
      else
        let (results, services) := executor.invokeTools agentId toolUses s.services
        (report :: toolUses.map .invokeTool,
          if executor.config.maxIterations ≤ s.iterations then stop .maxIterations
          else .next { s with
            services := services
            messages := s.messages ++ .assistant response.content :: results })

def runLoop : Dialogue (LoopState σ) LlmResult ExecutorEvent ExecutionResult where
  ask s := .complete (executor.request agentId manifest system tools s.messages)
  reply s answer :=
    match answer with
    | .error e => ([], .done ⟨s.lastText, s.cumulativeUsage, s.iterations, .error e.text⟩)
    | .ok response => executor.runTurn agentId s response

def historyTurn (s : HistoryState σ) (response : CompletionResponse) :
    List ExecutorEvent × Turn (HistoryState σ) ExecutionResultWithHistory :=
  let (result, services) := executor.services.reportUsage agentId response.usage s.services
  let report := .reportUsage response.usage result
  let s := { s with
    services := services
    iterations := s.iterations + 1
    cumulativeUsage := s.cumulativeUsage.accumulate response.usage
    lastText := lastTextOf response.content s.lastText }
  let assistant := .assistant response.content
  let stop reason transcriptDelta :=
    .done ⟨⟨s.lastText, s.cumulativeUsage, s.iterations, reason⟩, transcriptDelta⟩
  if executor.config.maxTotalTokens < s.cumulativeUsage.total then
    ([report], stop .maxTokens s.transcriptDelta)
  else
    match response.stopReason with
    | .endTurn | .stopSequence => ([report], stop .complete (s.transcriptDelta ++ [assistant]))
    | .maxTokens => ([report], stop .truncated (s.transcriptDelta ++ [assistant]))
    | .toolUse =>
      let toolUses := toolUsesOf response.content
      let (results, services) := executor.invokeTools agentId toolUses s.services
      let transcriptDelta := s.transcriptDelta ++ assistant :: results
      (report :: toolUses.map .invokeTool,
        if executor.config.maxIterations ≤ s.iterations then
          stop .maxIterations transcriptDelta
        else .next { s with
          services := services
          messages := s.messages ++ assistant :: results
          transcriptDelta := transcriptDelta })

def historyLoop :
    Dialogue (HistoryState σ) LlmResult ExecutorEvent ExecutionResultWithHistory where
  ask s := .complete (executor.request agentId manifest system tools s.messages)
  reply s answer :=
    match answer with
    | .error e =>
      ([], .done ⟨⟨s.lastText, s.cumulativeUsage, s.iterations, .error e.text⟩,
        s.transcriptDelta⟩)
    | .ok response => executor.historyTurn agentId s response

end Loops

/-- The system prompt of a manifest. -/
def systemPrompt (manifest : AgentManifest) : Except Text Text :=
  match manifest.systemPrompt with
  | .inline s => .ok s
  | .file path =>
    (executor.readToString path).mapError ("failed to read system prompt: " ++ ·)

/-- The tools of the agent, with the state of the services after the request. -/
def listTools (services : σ) : Except Text (List ToolDefinition) × σ :=
  let (tools, services) := executor.services.listTools agentId services
  (tools.mapError (fun e => "failed to list tools: " ++ e.text executor.texts), services)

/-- The result of an execution that fails before its loop. -/
def failed (message : Text) : ExecutionResult := ⟨[], {}, 0, .error message⟩

/-- The events and the result of `run` with a script of answers of the model. -/
def run (manifest : AgentManifest) (initialMessage : Text) (services : σ)
    (script : List LlmResult) : List ExecutorEvent × Option ExecutionResult :=
  match executor.systemPrompt manifest with
  | .error message => ([], some (failed message))
  | .ok system =>
    match executor.listTools agentId services with
    | (.error message, _) => ([], some (failed message))
    | (.ok tools, services) =>
      (executor.runLoop agentId manifest system tools).run
        { services, messages := [.user initialMessage] } script

/-- The events and the result of `runWithHistoryAndPrompt` with a script of answers of the model. -/
def runWithHistoryAndPrompt (manifest : AgentManifest) (initialMessage : Text)
    (priorMessages : List Message) (systemPrompt : Text) (services : σ)
    (script : List LlmResult) : List ExecutorEvent × Option ExecutionResultWithHistory :=
  match executor.listTools agentId services with
  | (.error message, _) => ([], some ⟨failed message, []⟩)
  | (.ok tools, services) =>
    (executor.historyLoop agentId manifest systemPrompt tools).run
      { services
        messages := priorMessages ++ [.user initialMessage]
        transcriptDelta := [.user initialMessage] } script

/-- The events and the result of `runWithHistory` with a script of answers of the model. -/
def runWithHistory (manifest : AgentManifest) (initialMessage : Text)
    (priorMessages : List Message) (services : σ) (script : List LlmResult) :
    List ExecutorEvent × Option ExecutionResultWithHistory :=
  match executor.systemPrompt manifest with
  | .error message => ([], some ⟨failed message, []⟩)
  | .ok system =>
    executor.runWithHistoryAndPrompt agentId manifest initialMessage priorMessages system
      services script

end AgentExecutor
