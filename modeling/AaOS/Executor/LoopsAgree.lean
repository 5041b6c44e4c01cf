import AaOS.Executor.IterationLimit

/-!
# The two loops of the executor

`run` and `runWithHistory` are two copies of one loop.  Without nudges and with an empty history
they send the same requests and have the same result, with one exception: when the model stops for
tools and calls none, `run` takes the response as complete, and `runWithHistory` goes on.
-/

namespace AgentExecutor

open ExecutorConfig

variable {σ : Type} {executor : AgentExecutor σ} {agentId : AgentId}
  {manifest : AgentManifest} {system : Text} {tools : List ToolDefinition}

structure SameState (s : LoopState σ) (t : HistoryState σ) : Prop where
  services : s.services = t.services
  messages : s.messages = t.messages
  cumulativeUsage : s.cumulativeUsage = t.cumulativeUsage
  iterations : s.iterations = t.iterations
  lastText : s.lastText = t.lastText

/-- The response is within the tokens only if it does not stop for tools without a call. -/
def StopsClearly (config : ExecutorConfig) (s : LoopState σ) (answer : LlmResult) : Prop :=
  ∀ response, answer = .ok response →
    (s.cumulativeUsage.accumulate response.usage).total ≤ config.maxTotalTokens →
    ¬ (response.stopReason = .toolUse ∧ toolUsesOf response.content = [])

/-- Without nudges, a turn without tool calls is the last one. -/
theorem nudgeOrComplete_eq_done (hnudge : executor.config.commitNudges = 0) (s : LoopState σ)
    (content : List ContentBlock) :
  executor.nudgeOrComplete s content
    = .done ⟨s.lastText, s.cumulativeUsage, s.iterations, .complete⟩
  := by
  unfold nudgeOrComplete
  rw [hnudge, if_neg UInt32.not_lt_zero]

theorem turnsAgree_of_stopsClearly
    (hnudge : executor.config.commitNudges = 0) {s : LoopState σ} {t : HistoryState σ}
    (hsame : SameState s t) {answer : LlmResult} (hclear : StopsClearly executor.config s answer) :
  Dialogue.TurnsAgree SameState ExecutionResultWithHistory.toExecutionResult
    ((executor.runLoop agentId manifest system tools).reply s answer)
    ((executor.historyLoop agentId manifest system tools).reply t answer)
  := by
  obtain ⟨services, messages, cumulativeUsage, iterations, lastText, nudgesUsed⟩ := s
  obtain ⟨services', messages', transcriptDelta, cumulativeUsage', iterations', lastText'⟩ := t
  obtain ⟨hserv, hmsgs, husage, hiter, htext⟩ := hsame
  dsimp only at hserv hmsgs husage hiter htext
  subst hserv hmsgs husage hiter htext
  cases answer with
  | error e => exact .done rfl
  | ok response =>
    simp only [runLoop, historyLoop, runTurn, historyTurn, nudgeOrComplete_eq_done hnudge]
    by_cases htotal : executor.config.maxTotalTokens
        < (cumulativeUsage.accumulate response.usage).total
    · rw [if_pos htotal, if_pos htotal]
      exact .done rfl
    · rw [if_neg htotal, if_neg htotal]
      cases hreason : response.stopReason with
      | endTurn | stopSequence | maxTokens => exact .done rfl
      | toolUse =>
        have hcalls : toolUsesOf response.content ≠ [] := by
          intro hempty
          apply hclear response rfl (UInt64.not_lt.mp htotal) ⟨hreason, hempty⟩
        dsimp only
        rw [if_neg hcalls]
        split_ifs with hlast
        · exact .done rfl
        · apply Dialogue.TurnsAgree.next
          exact ⟨rfl, rfl, rfl, rfl, rfl⟩

theorem turnsDiffer_of_not_stopsClearly (hnudge : executor.config.commitNudges = 0)
    {s : LoopState σ} {t : HistoryState σ} (hsame : SameState s t) {answer : LlmResult}
    (hclear : ¬ StopsClearly executor.config s answer) :
  Dialogue.TurnsDiffer ExecutionResultWithHistory.toExecutionResult
    ((executor.runLoop agentId manifest system tools).reply s answer)
    ((executor.historyLoop agentId manifest system tools).reply t answer)
  := by
  unfold StopsClearly at hclear
  push Not at hclear
  obtain ⟨response, rfl, htotal, hreason, hempty⟩ := hclear
  have htotal' := htotal
  rw [hsame.cumulativeUsage] at htotal'
  simp only [runLoop, historyLoop, runTurn, historyTurn, nudgeOrComplete_eq_done hnudge]
  rw [if_neg (UInt64.not_lt.mpr htotal), if_neg (UInt64.not_lt.mpr htotal')]
  simp only [hreason]
  rw [if_pos hempty]
  split_ifs with hlast
  · apply Dialogue.TurnsDiffer.done
    intro heq
    cases congrArg ExecutionResult.stopReason heq
  · apply Dialogue.TurnsDiffer.next

theorem length_lt_of_continues {config : ExecutorConfig} (hnudge : config.commitNudges = 0)
    {responses : List CompletionResponse} (heach : EachAfter config.Continues responses) :
  responses.length + 1 < 2 ^ 32
  := by
  obtain rfl | ⟨before, last, rfl⟩ := List.eq_nil_or_concat' responses
  · simp
  · obtain ⟨-, hlt⟩ | ⟨-, hlt⟩ := heach.next.kind
    · rw [hnudge] at hlt
      cases hlt
    · have hbound := config.maxIterations.toNat_lt
      rw [List.length_append, List.length_singleton]
      omega

theorem forall_visits_stopsClearly_iff (hnudge : executor.config.commitNudges = 0)
    {initialMessage : Text} {services : σ} {script : List LlmResult} :
  (∀ s answer, (executor.runLoop agentId manifest system tools).Visits
        { services := services, messages := [.user initialMessage] } script s answer →
      StopsClearly executor.config s answer)
    ↔ ∀ before response rest, script = before.map .ok ++ .ok response :: rest →
      EachAfter executor.config.Continues before →
      (totalUsage (before ++ [response])).total ≤ executor.config.maxTotalTokens →
      ¬ (response.stopReason = .toolUse ∧ toolUsesOf response.content = [])
  := by
  have hshort {answers : List LlmResult} (responses : List CompletionResponse)
      (_ : responses.length < answers.length) :
      EachAfter executor.config.Continues responses → responses.length + 1 < 2 ^ 32 :=
    length_lt_of_continues hnudge
  constructor
  · intro hall before response rest hscr heach hwith
    have hlt := length_lt_of_continues hnudge heach
    obtain ⟨s, hs⟩ := executor.exists_stateAfter_of_continues agentId manifest system
      initialMessage tools services (by omega) heach
    obtain ⟨responses, heq, -, htrack⟩ := tracks_of_stateAfter hshort hs
    obtain rfl : before = responses := by
      apply List.map_injective_iff.mpr _ heq
      rintro _ _ ⟨⟩
      rfl
    apply hall s (.ok response) _ response rfl
    · rw [htrack.cumulativeUsage, ← totalUsage_concat]
      apply hwith
    · exact Dialogue.visits_iff.mpr ⟨_, rest, hscr, hs⟩
  · rintro hall s answer hvisit response rfl hwith
    obtain ⟨before, rest, hscr, hafter⟩ := Dialogue.visits_iff.mp hvisit
    obtain ⟨responses, rfl, heach, htrack⟩ := tracks_of_stateAfter hshort hafter
    apply hall responses response rest hscr heach
    rw [totalUsage_concat, ← htrack.cumulativeUsage]
    apply hwith

/-- With an inline prompt and without nudges, both loops send the same requests and have the same
result exactly when no response after others that continue stops for tools without a call. -/
theorem loops_agree_iff (executor : AgentExecutor σ) (agentId : AgentId) {manifest : AgentManifest}
    {prompt : Text} (hprompt : manifest.systemPrompt = .inline prompt)
    (hnudges : executor.config.commitNudges = 0) (initialMessage : Text) (services : σ)
    (script : List LlmResult) :
  ((executor.run agentId manifest initialMessage services script).1.filter
          ExecutorEvent.isComplete
        = (executor.runWithHistory agentId manifest initialMessage [] services script).1.filter
          ExecutorEvent.isComplete
      ∧ (executor.run agentId manifest initialMessage services script).2
        = (executor.runWithHistory agentId manifest initialMessage [] services script).2.map
          ExecutionResultWithHistory.toExecutionResult)
    ↔ ∀ tools services', executor.listTools agentId services = (.ok tools, services') →
      ∀ before response rest, script = before.map .ok ++ .ok response :: rest →
      EachAfter executor.config.Continues before →
      (totalUsage (before ++ [response])).total ≤ executor.config.maxTotalTokens →
      ¬ (response.stopReason = .toolUse ∧ toolUsesOf response.content = [])
  := by
  have hsys : executor.systemPrompt manifest = .ok prompt := by
    rw [systemPrompt, hprompt]
  unfold run runWithHistory
  rw [hsys]
  dsimp only
  unfold runWithHistoryAndPrompt
  rcases htools : executor.listTools agentId services with ⟨message | tools, services'⟩
  · simp
  · dsimp only
    rw [Dialogue.run_agrees_iff (R := SameState) (C := StopsClearly executor.config),
      forall_visits_stopsClearly_iff hnudges]
    · simp
    · intro s t hsame
      exact congrArg _ (congrArg _ hsame.messages)
    · intro t
      rfl
    · intro s answer
      apply executor.not_isComplete_runLoop agentId
    · intro s t answer hsame hclear
      apply turnsAgree_of_stopsClearly hnudges hsame hclear
    · intro s t answer hsame hclear
      apply turnsDiffer_of_not_stopsClearly hnudges hsame hclear
    · exact ⟨rfl, rfl, rfl, rfl, rfl⟩

def plainExecutor : AgentExecutor Unit := { nudgingExecutor with config := {} }

theorem loops_agree_iff_plainExecutor :
  callManifest.systemPrompt = .inline "Call.".toList
  ∧ plainExecutor.config.commitNudges = 0
  ∧ (((plainExecutor.run ⟨1⟩ callManifest [] () twoCalls).1.filter
            ExecutorEvent.isComplete
          = (plainExecutor.runWithHistory ⟨1⟩ callManifest [] [] () twoCalls).1.filter
            ExecutorEvent.isComplete
        ∧ (plainExecutor.run ⟨1⟩ callManifest [] () twoCalls).2
          = (plainExecutor.runWithHistory ⟨1⟩ callManifest [] [] () twoCalls).2.map
            ExecutionResultWithHistory.toExecutionResult)
      ↔ ∀ tools services', plainExecutor.listTools ⟨1⟩ () = (.ok tools, services') →
        ∀ before response rest, twoCalls = before.map .ok ++ .ok response :: rest →
        EachAfter plainExecutor.config.Continues before →
        (totalUsage (before ++ [response])).total ≤ plainExecutor.config.maxTotalTokens →
        ¬ (response.stopReason = .toolUse ∧ toolUsesOf response.content = []))
  := by
  refine ⟨rfl, rfl, ?_⟩
  apply loops_agree_iff plainExecutor ⟨1⟩ rfl rfl

/-- A response that stops for tools without a call ends `run`, but `runWithHistory` sends a second
request. -/
theorem loops_differ_on_empty_toolUse :
  (plainExecutor.run ⟨1⟩ callManifest [] () [.ok ⟨[], .toolUse, {}⟩]).2
    = some ⟨[], {}, 1, .complete⟩
  ∧ (plainExecutor.runWithHistory ⟨1⟩ callManifest [] [] () [.ok ⟨[], .toolUse, {}⟩]).2 = none
  ∧ ((plainExecutor.run ⟨1⟩ callManifest [] () [.ok ⟨[], .toolUse, {}⟩]).1.filter
      ExecutorEvent.isComplete).length = 1
  ∧ ((plainExecutor.runWithHistory ⟨1⟩ callManifest [] [] () [.ok ⟨[], .toolUse, {}⟩]).1.filter
      ExecutorEvent.isComplete).length = 2
  := ⟨rfl, rfl, rfl, rfl⟩

end AgentExecutor
