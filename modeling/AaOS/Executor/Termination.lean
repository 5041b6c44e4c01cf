import AaOS.Executor.Turns

/-!
# Termination of the executor

The loop of `run` ends when the model answers all its requests.  A turn is followed by
another one when the model is nudged, which happens at most `commit_nudges` times, or when
it calls tools, which it can do in less than `max_iterations` consecutive turns.
-/

namespace AgentExecutor

variable {σ : Type} (executor : AgentExecutor σ) (agentId : AgentId)

/-- The number of consecutive turns with tool calls that may still follow. -/
def toolTurns (s : LoopState σ) : Nat :=
  executor.config.maxIterations.toNat - (s.iterations + 1).toNat

/-- A bound on the number of turns that may still follow. -/
def turnsLeft (s : LoopState σ) : Nat :=
  (executor.config.commitNudges.toNat - s.nudgesUsed.toNat)
      * (executor.config.maxIterations.toNat + 1)
    + executor.toolTurns s

/-- A number of answers that is always enough. -/
def turnBound (config : ExecutorConfig) : Nat :=
  (config.commitNudges.toNat + 1) * (config.maxIterations.toNat + 1)

theorem toolTurns_le (s : LoopState σ) :
  executor.toolTurns s ≤ executor.config.maxIterations.toNat
  := Nat.sub_le _ _

variable {s s' : LoopState σ}

theorem turnsLeft_nudge (hnudge : s.nudgesUsed < executor.config.commitNudges)
    (hused : s'.nudgesUsed = s.nudgesUsed + 1) :
  executor.turnsLeft s' < executor.turnsLeft s
  := by
  have hlt : s.nudgesUsed.toNat < executor.config.commitNudges.toNat := hnudge
  have hbound := executor.config.commitNudges.toNat_lt
  have hnat : s'.nudgesUsed.toNat = s.nudgesUsed.toNat + 1 := by
    rw [hused, UInt32.toNat_add, UInt32.toNat_one]
    omega
  have hle := executor.toolTurns_le s'
  obtain ⟨n, hn⟩ : ∃ n, executor.config.commitNudges.toNat - s.nudgesUsed.toNat = n + 1 :=
    ⟨executor.config.commitNudges.toNat - s.nudgesUsed.toNat - 1, by omega⟩
  have hn' : executor.config.commitNudges.toNat - s'.nudgesUsed.toNat = n := by omega
  rw [turnsLeft, turnsLeft, hn, hn', Nat.add_one_mul]
  omega

theorem turnsLeft_tool (hused : s'.nudgesUsed = s.nudgesUsed)
    (hiter : s'.iterations = s.iterations + 1)
    (hlt : s'.iterations < executor.config.maxIterations) :
  executor.turnsLeft s' < executor.turnsLeft s
  := by
  have hlt : s'.iterations.toNat < executor.config.maxIterations.toNat := hlt
  have hbound := executor.config.maxIterations.toNat_lt
  have hnat : (s'.iterations + 1).toNat = s'.iterations.toNat + 1 := by
    rw [UInt32.toNat_add, UInt32.toNat_one]
    omega
  rw [turnsLeft, turnsLeft, hused, toolTurns, toolTurns, hnat, ← hiter]
  omega

theorem turnsLeft_lt {manifest : AgentManifest} {system : Text} {tools : List ToolDefinition}
    {answer : LlmResult}
    (hnext : ((executor.runLoop agentId manifest system tools).reply s answer).2 = .next s') :
  executor.turnsLeft s' < executor.turnsLeft s
  := by
  obtain ⟨response, -, hgoes⟩ := executor.runGoesOn_of_next agentId hnext
  obtain ⟨-, hlt, hused⟩ | ⟨-, hlt, hused⟩ := hgoes.kind
  · apply executor.turnsLeft_nudge hlt hused
  · apply executor.turnsLeft_tool hused hgoes.iterations
    rw [hgoes.iterations]
    apply hlt

/-- The execution ends when there are enough answers. -/
theorem isSome_run {manifest : AgentManifest} {initialMessage : Text} {services : σ}
    {script : List LlmResult} (hscr : turnBound executor.config ≤ script.length) :
  (executor.run agentId manifest initialMessage services script).2.isSome = true
  := by
  unfold run
  split
  · rfl
  · split
    · rfl
    · apply Dialogue.isSome_run_of_lt executor.turnsLeft
      · intro s answer s' hnext
        apply executor.turnsLeft_lt agentId hnext
      · apply Nat.lt_of_lt_of_le _ hscr
        rw [turnsLeft, turnBound, Nat.add_one_mul, UInt32.toNat_zero, Nat.sub_zero]
        apply Nat.add_lt_add_left
        apply Nat.lt_succ_of_le (executor.toolTurns_le _)

end AgentExecutor
