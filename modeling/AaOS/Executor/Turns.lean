import AaOS.Executor.Loop

/-!
# Turns that go on

A turn is followed by another one only when the tokens of the execution are within their limit.  In
`run` the model has then been nudged, or calls tools before the last iteration; in the loop with a
history it has stopped for tools before the last iteration.
-/

namespace CompletionResponse

variable (response : CompletionResponse)

def ThoughtOnly : Prop :=
  response.stopReason = .endTurn ∨ response.stopReason = .stopSequence
    ∨ response.stopReason = .toolUse ∧ toolUsesOf response.content = []

def CallsTools : Prop :=
  response.stopReason = .toolUse ∧ toolUsesOf response.content ≠ []

instance : Decidable response.ThoughtOnly :=
  inferInstanceAs (Decidable (_ ∨ _ ∨ _ ∧ toolUsesOf response.content = []))

variable {response} in
theorem CallsTools.not_thoughtOnly (hcalls : response.CallsTools) : ¬ response.ThoughtOnly := by
  obtain ⟨hreason, hcalls⟩ := hcalls
  unfold ThoughtOnly
  rw [hreason]
  rintro (hreason' | hreason' | ⟨-, hempty⟩)
  · cases hreason'
  · cases hreason'
  · contradiction

end CompletionResponse

namespace AgentExecutor

variable {σ : Type} (executor : AgentExecutor σ) (agentId : AgentId)
  {manifest : AgentManifest} {system : Text} {tools : List ToolDefinition}

/-- How a turn of `run` leads to a state for a further turn. -/
structure RunGoesOn (s : LoopState σ) (response : CompletionResponse) (s' : LoopState σ) :
    Prop where
  within : (s.cumulativeUsage.accumulate response.usage).total ≤ executor.config.maxTotalTokens
  iterations : s'.iterations = s.iterations + 1
  cumulativeUsage : s'.cumulativeUsage = s.cumulativeUsage.accumulate response.usage
  kind : (response.ThoughtOnly ∧ s.nudgesUsed < executor.config.commitNudges
      ∧ s'.nudgesUsed = s.nudgesUsed + 1)
    ∨ (response.CallsTools ∧ s.iterations + 1 < executor.config.maxIterations
      ∧ s'.nudgesUsed = s.nudgesUsed)

variable {s : LoopState σ}

theorem exists_nudgeOrComplete_eq_next_iff {content : List ContentBlock} :
  (∃ s', executor.nudgeOrComplete s content = .next s')
    ↔ s.nudgesUsed < executor.config.commitNudges
  := by
  unfold nudgeOrComplete
  split_ifs with hlt <;> simp [hlt]

/-- A turn of `run` that leads to a further turn goes on in one of the two ways. -/
theorem runGoesOn_of_next {s' : LoopState σ} {answer : LlmResult}
    (hnext : ((executor.runLoop agentId manifest system tools).reply s answer).2 = .next s') :
  ∃ response, answer = .ok response ∧ executor.RunGoesOn s response s'
  := by
  cases answer with
  | error e => cases hnext
  | ok response =>
    use response, rfl
    simp only [runLoop, runTurn] at hnext
    have hwith : ¬ executor.config.maxTotalTokens
        < (s.cumulativeUsage.accumulate response.usage).total := by
      intro htotal
      rw [if_pos htotal] at hnext
      cases hnext
    rw [if_neg hwith] at hnext
    rw [UInt64.not_lt] at hwith
    have hnudge {t : LoopState σ}
        (hturn : executor.nudgeOrComplete t response.content = .next s')
        (hthink : response.ThoughtOnly) (hiter : t.iterations = s.iterations + 1)
        (husage : t.cumulativeUsage = s.cumulativeUsage.accumulate response.usage)
        (hused : t.nudgesUsed = s.nudgesUsed) :
        executor.RunGoesOn s response s' := by
      unfold nudgeOrComplete at hturn
      split_ifs at hturn with hlt
      cases hturn
      rw [hused] at hlt
      refine ⟨hwith, hiter, husage, .inl ⟨hthink, hlt, ?_⟩⟩
      rw [← hused]
    cases hreason : response.stopReason with
    | endTurn =>
      simp only [hreason] at hnext
      apply hnudge hnext (.inl hreason) rfl rfl rfl
    | stopSequence =>
      simp only [hreason] at hnext
      apply hnudge hnext (.inr (.inl hreason)) rfl rfl rfl
    | maxTokens =>
      simp only [hreason] at hnext
      cases hnext
    | toolUse =>
      simp only [hreason] at hnext
      split_ifs at hnext with hempty hlast
      · apply hnudge hnext (.inr (.inr ⟨hreason, hempty⟩)) rfl rfl rfl
      · cases hnext
        exact ⟨hwith, rfl, rfl, .inr ⟨⟨hreason, hempty⟩, UInt32.not_le.mp hlast, rfl⟩⟩

theorem exists_next_of_kind {response : CompletionResponse}
    (hwith : (s.cumulativeUsage.accumulate response.usage).total ≤ executor.config.maxTotalTokens)
    (hkind : response.ThoughtOnly ∧ s.nudgesUsed < executor.config.commitNudges
      ∨ response.CallsTools ∧ s.iterations + 1 < executor.config.maxIterations) :
  ∃ s', ((executor.runLoop agentId manifest system tools).reply s (.ok response)).2 = .next s'
  := by
  simp only [runLoop, runTurn]
  rw [if_neg (UInt64.not_lt.mpr hwith)]
  obtain ⟨hreason | hreason | ⟨hreason, hempty⟩, hlt⟩ | ⟨⟨hreason, hcalls⟩, hlt⟩ := hkind
  · simp only [hreason]
    apply executor.exists_nudgeOrComplete_eq_next_iff.mpr
    apply hlt
  · simp only [hreason]
    apply executor.exists_nudgeOrComplete_eq_next_iff.mpr
    apply hlt
  · simp only [hreason]
    rw [if_pos hempty]
    apply executor.exists_nudgeOrComplete_eq_next_iff.mpr
    apply hlt
  · simp only [hreason]
    rw [if_neg hcalls, if_neg (UInt32.not_le.mpr hlt)]
    exact ⟨_, rfl⟩

theorem historyTurn_next {s s' : HistoryState σ} {response : CompletionResponse}
    (hnext : (executor.historyTurn agentId s response).2 = .next s') :
  response.stopReason = .toolUse ∧ s'.iterations = s.iterations + 1
    ∧ s.iterations + 1 < executor.config.maxIterations
  := by
  simp only [historyTurn] at hnext
  cases hreason : response.stopReason with
  | endTurn | stopSequence | maxTokens =>
    simp only [hreason] at hnext
    split_ifs at hnext
  | toolUse =>
    simp only [hreason] at hnext
    split_ifs at hnext with htotal hlast
    cases hnext
    exact ⟨rfl, rfl, UInt32.not_le.mp hlast⟩

end AgentExecutor
