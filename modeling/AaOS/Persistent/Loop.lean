import AaOS.Persistent.Context

/-!
# The loop of a persistent agent

`persistent_agent_loop` of `aaos-runtime/src/persistent.rs` prepares the context for each message,
hands it to the executor, appends the messages of the execution to the history, and cuts the
history down to its limit.  A step is the arrival of a message, the return of the executor, or a
command; the outcomes of the store and the readings of the clock are part of the input.
-/

/-! ### Messages and commands -/

structure McpMessage where
  method : Text
  params : Json
  traceId : Uuid

def extractUserMessage (msg : McpMessage) : Text :=
  ((msg.params.get "message").bind Json.asStr).getD msg.method

inductive AgentCommand where
  | stop
  | pause
  | resume

structure ArchiveSegment where
  sourceRange : Nat × Nat
  messages : List Message
  archivedAt : DateTime

/-- A message that arrives, and what is met while it is handled. -/
structure Arrival (σ : Type) where
  message : McpMessage
  services : σ
  script : List LlmResult
  summaryAnswer : LlmResult
  archive : Except Text DateTime
  replace : Except Text Unit
  now : Nat

/-- What the loop receives.  An append that fails may have written some of the messages. -/
inductive PersistentInput (σ : Type) where
  | message (arrival : Arrival σ)
  | messagesClosed (clears : Bool)
  | returned (append : Except (Nat × Text) Unit) (now : Nat)
  | command (command : Option AgentCommand) (clears : Bool)

/-! ### States -/

/-- The audit events and the responses of the loop. -/
inductive PersistentEvent where
  | agentLoopStarted (lifecycle : Text)
  | agentMessageReceived (traceId : Uuid) (method : Text)
  | contextSummarized (messagesSummarized : UInt32) (sourceRange : Nat × Nat)
      (tokensSavedEstimate : UInt32)
  | contextSummarizationFailed (reason fallback : Text) (failureKind : SummarizationFailureKind)
  | sessionStoreError (operation message : Text)
  | agentExecutionCompleted (stopReason : Text) (totalIterations : UInt32)
  | agentLoopStopped (reason : Text) (messagesProcessed : UInt64)
  | respond (traceId : Uuid) (response : Except (Int × Text) Json)

inductive StoreCall where
  | append (messages : List Message)
  | replace (messages : List Message)
  | archiveSegment (sourceRange : Nat × Nat) (messages : List Message)
  | clear

inductive LoopStatus where
  | waiting
  | executing (traceId : Uuid) (messagesForLlm : List Message) (promptForLlm : Text)
      (result : Option ExecutionResultWithHistory)
  | paused
  | stopped

/-- The state of the loop and of the store. -/
structure PersistentState where
  history : List Message
  stored : List Message
  archives : List ArchiveSegment := []
  messagesProcessed : UInt64 := 0
  lastSessionStoreError : Option Nat := none
  status : LoopStatus := .waiting
  events : List PersistentEvent := []
  storeCalls : List StoreCall := []

/-- The least time between two reports of errors of the store, in milliseconds. -/
def sessionStoreErrorThrottle : Nat := 60000

namespace PersistentState

variable (state : PersistentState)

/-- The state with more events. -/
def record (events : List PersistentEvent) : PersistentState :=
  { state with events := state.events ++ events }

/-- The store is called. -/
def call (storeCall : StoreCall) : PersistentState :=
  { state with storeCalls := state.storeCalls ++ [storeCall] }

def shouldEmit (now : Nat) : Bool :=
  match state.lastSessionStoreError with
  | some prev => sessionStoreErrorThrottle ≤ now - prev
  | none => true

def noteError (now : Nat) : PersistentState :=
  { state with
    lastSessionStoreError :=
      if state.shouldEmit now then some now else state.lastSessionStoreError }

def storeError (operation message : Text) (now : Nat) : PersistentState :=
  (state.noteError now).record
    (if state.shouldEmit now then [.sessionStoreError operation message] else [])

end PersistentState

/-! ### The loop -/

/-- The configuration of the loop of an agent. -/
structure PersistentLoop (σ : Type) where
  agentId : AgentId
  manifest : AgentManifest
  maxHistoryMessages : Option Nat
  executor : AgentExecutor σ
  contextManager : Option ContextManager
  clearSessionOnExit : Bool

namespace PersistentLoop

variable {σ : Type} (loop : PersistentLoop σ)

def maxHistory : Nat := loop.maxHistoryMessages.getD 100

def systemPromptStr : Text :=
  match loop.manifest.systemPrompt with
  | .inline s => s
  | .file path =>
    match loop.executor.readToString path with
    | .ok s => s
    | .error _ => "Failed to read prompt from " ++ path

/-- The state in which the loop starts with what is in the store. -/
def start (stored : List Message) : PersistentState where
  history := stored
  stored := stored
  events := [.agentLoopStarted "persistent"]

/-- The state in which the loop starts when the store may fail to load the history. -/
def startLoading (loads : Bool) (stored : List Message) : PersistentState :=
  { start stored with history := if loads then stored else [] }

def contextFor (arrival : Arrival σ) (history : List Message) : PreparedContext :=
  match loop.contextManager with
  | some manager => manager.prepareContext history loop.systemPromptStr arrival.summaryAnswer
  | none => { messages := history, systemPrompt := loop.systemPromptStr }

/-- Archive what was summed up, and put the summary in its place. -/
def applySummarization (arrival : Arrival σ) (summ : SummarizationResult)
    (state : PersistentState) : PersistentState :=
  let state := state.call (.archiveSegment summ.sourceRange summ.archivedMessages)
  match arrival.archive with
  | .error message => state.storeError "archive" message arrival.now
  | .ok archivedAt =>
    let history := summ.summary :: state.history.drop (summ.sourceRange.2 + 1)
    let state := { state with
      archives :=
        state.archives ++ [ArchiveSegment.mk summ.sourceRange summ.archivedMessages archivedAt]
      history := history }
    let state := state.call (.replace history)
    let state :=
      match arrival.replace with
      | .ok () => { state.noteError arrival.now with stored := history }
      | .error message => state.storeError "replace" message arrival.now
    state.record [.contextSummarized (UInt32.ofNat summ.archivedMessages.length)
      summ.sourceRange summ.tokensSavedEstimate]

def applyPrepared (arrival : Arrival σ) (prepared : PreparedContext) (state : PersistentState) :
    PersistentState :=
  let state :=
    match prepared.summarization with
    | some summ => applySummarization arrival summ state
    | none => state
  match prepared.summarizationFailure with
  | some failure =>
    state.record [.contextSummarizationFailed failure.message "original_history"
      failure.kind]
  | none => state

def execute (arrival : Arrival σ) (prepared : PreparedContext) :
    Option ExecutionResultWithHistory :=
  (loop.executor.runWithHistoryAndPrompt loop.agentId loop.manifest
    (extractUserMessage arrival.message) prepared.messages prepared.systemPrompt
    arrival.services arrival.script).2

/-- Prepare the context for a message and hand it to the executor. -/
def receive (arrival : Arrival σ) (state : PersistentState) : PersistentState :=
  let msg := arrival.message
  let prepared := loop.contextFor arrival state.history
  let state := state.record [.agentMessageReceived msg.traceId msg.method]
  { applyPrepared arrival prepared state with
    status := .executing msg.traceId prepared.messages prepared.systemPrompt
      (loop.execute arrival prepared) }

/-- Cut the history down to its limit. -/
def trim (history : List Message) : List Message :=
  if loop.maxHistory < history.length then history.drop (history.length - loop.maxHistory)
  else history

def successResponse (result : ExecutionResultWithHistory) : Json :=
  .obj [("response", .str result.response),
    ("usage", .obj [("input_tokens", jsonNat result.usage.inputTokens.toNat),
      ("output_tokens", jsonNat result.usage.outputTokens.toNat)]),
    ("iterations", jsonNat result.iterations.toNat),
    ("stop_reason", .str result.stopReason.text)]

def appendToStore (append : Except (Nat × Text) Unit) (now : Nat) (delta : List Message)
    (state : PersistentState) : PersistentState :=
  let state := state.call (.append delta)
  match append with
  | .ok () => { state with stored := state.stored ++ delta }
  | .error (written, message) =>
    { state with stored := state.stored ++ delta.take written }.storeError "append"
      message now

def finish (append : Except (Nat × Text) Unit) (now : Nat) (traceId : Uuid)
    (result : ExecutionResultWithHistory) (state : PersistentState) : PersistentState :=
  let state := { state with
    status := .waiting
    messagesProcessed := state.messagesProcessed + 1 }
  let completed := .agentExecutionCompleted result.stopReason.text result.iterations
  match result.stopReason with
  | .error message => state.record [completed, .respond traceId (.error (-32603, message))]
  | _ =>
    let state := { state with history := loop.trim (state.history ++ result.transcriptDelta) }
    let state := appendToStore append now result.transcriptDelta state
    state.record [completed, .respond traceId (.ok (successResponse result))]

def leave (clears : Bool) (state : PersistentState) : PersistentState :=
  let state := { state with status := .stopped }.record
    [.agentLoopStopped "normal" state.messagesProcessed]
  if loop.clearSessionOnExit then
    { state with stored := if clears then [] else state.stored }.call .clear
  else state

/-- Obey a command that is received while the loop waits for a message. -/
def obey (command : Option AgentCommand) (clears : Bool) (state : PersistentState) :
    PersistentState :=
  match command with
  | some .pause => { state with status := .paused }
  | some .resume => state
  | some .stop | none => loop.leave clears state

def obeyPaused (command : Option AgentCommand) (state : PersistentState) : PersistentState :=
  match command with
  | some .resume => { state with status := .waiting }
  | some .pause => state
  | some .stop | none =>
    { state with status := .stopped }.record
      [.agentLoopStopped "stopped_while_paused" state.messagesProcessed]

/-- A step of the loop; what cannot be received in a state is left where it is. -/
def step (state : PersistentState) (input : PersistentInput σ) : PersistentState :=
  match state.status, input with
  | .waiting, .message arrival => loop.receive arrival state
  | .waiting, .messagesClosed clears => loop.leave clears state
  | .waiting, .command command clears => loop.obey command clears state
  | .executing traceId _ _ (some result), .returned append now =>
    loop.finish append now traceId result state
  | .paused, .command command _ => obeyPaused command state
  | _, _ => state

/-- The state that the inputs lead to. -/
def run (state : PersistentState) (inputs : List (PersistentInput σ)) : PersistentState :=
  inputs.foldl loop.step state

end PersistentLoop
