import AaOS.Executor.Stopping
import AaOS.Lib.Pairing

/-!
# The transcript of an execution

A conversation is well-formed when every result of a tool comes after the message in which
the model calls the tool.  The messages that `runWithHistoryAndPrompt` adds to the history
are well-formed, and they stay so when they are appended to a well-formed history.
-/

open List

namespace Message

def isToolResult : Message → Bool
  | .toolResult .. => true
  | _ => false

/-- The message is a summary. -/
def isSummary : Message → Bool
  | .summary .. => true
  | _ => false

def RepliesTo : Message → Message → Prop
  | .toolResult toolUseId _ _, .assistant content => toolUseId ∈ (toolUsesOf content).map (·.id)
  | _, _ => False

end Message

/-- Every result of a tool follows a message of the assistant that calls it, with only results of
the same message in between. -/
def WellFormed (messages : List Message) : Prop :=
  Paired (fun message => message.isToolResult = true) Message.RepliesTo messages

/-- There is no summary among the messages. -/
def SummaryFree (messages : List Message) : Prop :=
  ∀ message ∈ messages, message.isSummary = false

theorem SummaryFree.append {messages messages' : List Message} (hfree : SummaryFree messages)
    (hfree' : SummaryFree messages') :
  SummaryFree (messages ++ messages')
  := by
  intro message hmem
  obtain hmem | hmem := mem_append.mp hmem
  · apply hfree message hmem
  · apply hfree' message hmem

namespace AgentExecutor

variable {σ : Type} (executor : AgentExecutor σ) (agentId : AgentId)

theorem exists_use_of_mem_invokeTools (uses : List ToolUse) (services : σ) {message : Message}
    (hmem : message ∈ (executor.invokeTools agentId uses services).1) :
  ∃ use ∈ uses, ∃ content isError, message = .toolResult use.id content isError
  := by
  induction uses generalizing services with
  | nil => cases hmem
  | cons use uses ih =>
    obtain rfl | hmem := mem_cons.mp hmem
    · use use, mem_cons_self
      rcases (executor.services.invokeTool agentId use.name use.input services).1 with e | result
      all_goals exact ⟨_, _, rfl⟩
    · obtain ⟨use', huse, hmsg⟩ := ih _ hmem
      exact ⟨use', mem_cons_of_mem _ huse, hmsg⟩

theorem wellFormed_exchange (content : List ContentBlock) (services : σ) :
  WellFormed (.assistant content :: (executor.invokeTools agentId (toolUsesOf content) services).1)
  := by
  apply Paired.exchange
  · simp [Message.isToolResult]
  · intro message hmem
    obtain ⟨use, huse, content, isError, rfl⟩ :=
      executor.exists_use_of_mem_invokeTools agentId _ services hmem
    exact ⟨rfl, mem_map_of_mem huse⟩

/-- What a turn of `runWithHistoryAndPrompt` may add to the transcript on a response. -/
inductive TurnAdds (response : CompletionResponse) : List Message → Prop
  | nothing : TurnAdds response []
  | answer : response.stopReason ≠ .toolUse → TurnAdds response [.assistant response.content]
  | exchange (services : σ) : response.stopReason = .toolUse →
      TurnAdds response (.assistant response.content
        :: (executor.invokeTools agentId (toolUsesOf response.content) services).1)

/-- What a turn adds to the transcript, it adds to the conversation when it goes on. -/
theorem exists_added_historyTurn (s : HistoryState σ) (response : CompletionResponse) :
  ∃ added, executor.TurnAdds agentId response added
    ∧ (executor.historyTurn agentId s response).2.Satisfies
      (fun s' => s'.messages = s.messages ++ added
        ∧ s'.transcriptDelta = s.transcriptDelta ++ added)
      (fun r => r.transcriptDelta = s.transcriptDelta ++ added)
  := by
  unfold historyTurn
  dsimp only
  by_cases htotal : executor.config.maxTotalTokens
      < (s.cumulativeUsage.accumulate response.usage).total
  · rw [if_pos htotal]
    exact ⟨[], .nothing, (append_nil _).symm⟩
  · rw [if_neg htotal]
    rcases hreason : response.stopReason
    case toolUse =>
      dsimp only
      split_ifs
      · exact ⟨_, .exchange _ hreason, rfl⟩
      · exact ⟨_, .exchange _ hreason, rfl, rfl⟩
    all_goals exact ⟨_, .answer (by rw [hreason]; decide), rfl⟩

variable {response : CompletionResponse}

/-! ### Properties of conversations -/

section Conversation

variable {executor agentId} {manifest : AgentManifest} {initialMessage : Text}
  {priorMessages : List Message} {systemPrompt : Text} {services : σ} {script : List LlmResult}
  {P : List Message → Prop}

theorem of_transcriptDelta
    (hadds : ∀ messages response added, P messages →
      executor.TurnAdds agentId response added → P (messages ++ added))
    (hnil : P []) (hinit : P [.user initialMessage]) {result : ExecutionResultWithHistory}
    (hres : (executor.runWithHistoryAndPrompt agentId manifest initialMessage priorMessages
      systemPrompt services script).2 = some result) :
  P result.transcriptDelta
  := by
  unfold runWithHistoryAndPrompt at hres
  rcases htools : executor.listTools agentId services with ⟨message | tools, services'⟩
  · rw [htools] at hres
    cases hres
    apply hnil
  · rw [htools] at hres
    apply Dialogue.of_run_eq_some (P := fun s => P s.transcriptDelta)
      (Q := fun r => P r.transcriptDelta) _ hinit hres
    intro s answer hs
    rcases answer with e | response
    · apply hs
    · obtain ⟨added, hadded, hturn⟩ := executor.exists_added_historyTurn agentId s response
      have happ := hadds _ _ _ hs hadded
      show (executor.historyTurn agentId s response).2.Satisfies _ _
      rcases hnext : (executor.historyTurn agentId s response).2 with s' | r
      · rw [hnext] at hturn
        obtain ⟨-, hdelta⟩ := hturn
        rwa [← hdelta] at happ
      · rw [hnext] at hturn
        rwa [← hturn] at happ

/-- A property that a turn keeps when it adds messages holds of every conversation sent to the
model. -/
theorem of_request
    (hadds : ∀ messages response added, P messages →
      executor.TurnAdds agentId response added → P (messages ++ added))
    (hinit : P (priorMessages ++ [.user initialMessage])) {request : CompletionRequest}
    (hmem : .complete request ∈ (executor.runWithHistoryAndPrompt agentId manifest initialMessage
      priorMessages systemPrompt services script).1) :
  P request.messages
  := by
  unfold runWithHistoryAndPrompt at hmem
  rcases htools : executor.listTools agentId services with ⟨message | tools, services'⟩
  · rw [htools] at hmem
    cases hmem
  · rw [htools] at hmem
    apply Dialogue.of_mem_run (P := fun s => P s.messages) (Q := fun _ => True)
      (E := fun e => ∀ request, e = .complete request → P request.messages)
      _ _ _ hinit hmem request rfl
    · rintro s hs request ⟨⟩
      apply hs
    · intro s answer hs e he request
      rcases answer with error | response
      · cases he
      · intro heq
        cases (executor.reports_historyTurn agentId s response).ne_complete he request heq
    · intro s answer hs
      rcases answer with error | response
      · trivial
      · obtain ⟨added, hadded, hturn⟩ := executor.exists_added_historyTurn agentId s response
        have happ := hadds _ _ _ hs hadded
        show (executor.historyTurn agentId s response).2.Satisfies _ _
        rcases hnext : (executor.historyTurn agentId s response).2 with s' | r
        · rw [hnext] at hturn
          obtain ⟨hmsgs, -⟩ := hturn
          rwa [← hmsgs] at happ
        · trivial

end Conversation

/-! ### Well-formed conversations -/

variable {executor agentId}

theorem TurnAdds.wellFormed {added : List Message}
    (hadds : executor.TurnAdds agentId response added) :
  WellFormed added
  := by
  cases hadds with
  | nothing => apply Paired.nil
  | answer hreason =>
    apply Paired.singleton
    simp [Message.isToolResult]
  | exchange services hreason => apply executor.wellFormed_exchange

variable (executor agentId)

theorem wellFormed_user (content : Text) :
  WellFormed [.user content]
  := by
  apply Paired.singleton
  simp [Message.isToolResult]

variable {manifest : AgentManifest} {initialMessage systemPrompt : Text}
  {priorMessages : List Message} {services : σ} {script : List LlmResult}

variable {result : ExecutionResultWithHistory}

theorem wellFormed_transcriptDelta
    (hres : (executor.runWithHistoryAndPrompt agentId manifest initialMessage priorMessages
      systemPrompt services script).2 = some result) :
  WellFormed result.transcriptDelta
  := by
  apply of_transcriptDelta _ Paired.nil (wellFormed_user initialMessage) hres
  intro messages response added hmsgs hadds
  apply Paired.append hmsgs hadds.wellFormed

/-! ### Conversations without summaries -/

variable {executor agentId}

theorem summaryFree_user (content : Text) :
  SummaryFree [.user content]
  := by
  intro message hmem
  obtain rfl := mem_singleton.mp hmem
  rfl

theorem TurnAdds.summaryFree {added : List Message}
    (hadds : executor.TurnAdds agentId response added) :
  SummaryFree added
  := by
  intro message hmem
  cases hadds with
  | nothing => cases hmem
  | answer hreason =>
    obtain rfl := mem_singleton.mp hmem
    rfl
  | exchange services hreason =>
    obtain rfl | hmem := mem_cons.mp hmem
    · rfl
    · obtain ⟨use, -, content, isError, rfl⟩ :=
        executor.exists_use_of_mem_invokeTools agentId _ services hmem
      rfl

variable (executor agentId)

theorem summaryFree_transcriptDelta
    (hres : (executor.runWithHistoryAndPrompt agentId manifest initialMessage priorMessages
      systemPrompt services script).2 = some result) :
  SummaryFree result.transcriptDelta
  := by
  apply of_transcriptDelta _ _ (summaryFree_user initialMessage) hres
  · intro messages response added hmsgs hadds
    apply hmsgs.append hadds.summaryFree
  · rintro message ⟨⟩

theorem summaryFree_request {request : CompletionRequest} (hprior : SummaryFree priorMessages)
    (hmem : .complete request ∈ (executor.runWithHistoryAndPrompt agentId manifest initialMessage
      priorMessages systemPrompt services script).1) :
  SummaryFree request.messages
  := by
  apply of_request _ _ hmem
  · intro messages response added hmsgs hadds
    apply hmsgs.append hadds.summaryFree
  · apply hprior.append (summaryFree_user initialMessage)

end AgentExecutor
