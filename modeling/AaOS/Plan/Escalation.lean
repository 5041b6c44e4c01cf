import AaOS.Plan.Events

/-!
# Escalation

A subtask that failed may be given a stronger model in the next plan.
`aaos-runtime/src/plan/escalation.rs` draws signals about a subtask from the events in the
audit log, decides whether one of them calls for an escalation, and carries the tiers of
the subtasks over to the next plan.
-/

open List

/-- The reason that is recorded for an escalation. -/
def EscalationSignal.reason : EscalationSignal → Text
  | replanRetry => "replan_retry"
  | toolRepeatGuard => "tool_repeat_guard"
  | maxTokens => "max_tokens"

/-- The signal that calls for an escalation of a failed subtask, if there is a next tier. -/
def decideEscalation (failed : FailedSubtask) (configured : List EscalationSignal)
    (ladderLen : Nat) (currentTier : UInt8) : Option EscalationSignal :=
  if ladderLen ≤ 1 then none
  else if ladderLen - 1 ≤ currentTier.toNat then none
  else
    [EscalationSignal.replanRetry, .maxTokens, .toolRepeatGuard].find?
      (fun candidate => configured.contains candidate && failed.observedSignals.contains candidate)

def signalOf (subtaskId : SubtaskId) (agentIds : List AgentId) :
    SubtaskEvent → Option EscalationSignal
  | .completed _ id false => if id = subtaskId then some .replanRetry else none
  | .agent agentId (.toolRepeatGuardFired ..) =>
    if agentIds.contains agentId then some .toolRepeatGuard else none
  | .agent agentId (.executionCompleted stopReason _) =>
    if stopReason.text = "MaxTokens" && agentIds.contains agentId then some .maxTokens
    else none
  | _ => none

def signalsForSubtask (subtaskId : SubtaskId) (agentIds : List AgentId)
    (events : List SubtaskEvent) : List EscalationSignal :=
  events.foldl
    (fun out event =>
      match signalOf subtaskId agentIds event with
      | some signal => if out.contains signal then out else out ++ [signal]
      | none => out)
    []

def tiersOf (plan : Plan) : Table SubtaskId UInt8 :=
  plan.subtasks.foldl (fun tiers s => AList.insert s.id s.currentModelTier tiers) ∅

def carryTiersForward (newPlan oldPlan : Plan) (bumps : Table SubtaskId UInt8) : Plan :=
  let oldTiers := tiersOf oldPlan
  { newPlan with
    subtasks := newPlan.subtasks.map fun s =>
      match bumps.lookup s.id with
      | some bumped => { s with currentModelTier := bumped }
      | none =>
        match oldTiers.lookup s.id with
        | some previous => { s with currentModelTier := previous }
        | none => s }

/-! ### Signals -/

theorem mem_signalsForSubtask {subtaskId : SubtaskId} {agentIds : List AgentId}
    {events : List SubtaskEvent} {signal : EscalationSignal} :
  signal ∈ signalsForSubtask subtaskId agentIds events
    ↔ ∃ event ∈ events, signalOf subtaskId agentIds event = some signal
  := by
  induction events using reverseRecOn with
  | nil => simp [signalsForSubtask]
  | append_singleton events event ih =>
    have hsnoc : signalsForSubtask subtaskId agentIds (events ++ [event])
        = match signalOf subtaskId agentIds event with
          | some signal =>
            if (signalsForSubtask subtaskId agentIds events).contains signal then
              signalsForSubtask subtaskId agentIds events
            else signalsForSubtask subtaskId agentIds events ++ [signal]
          | none => signalsForSubtask subtaskId agentIds events := by
      simp only [signalsForSubtask, foldl_append, foldl_cons, foldl_nil]
      rfl
    rw [hsnoc]
    simp only [mem_append, mem_singleton, or_and_right, exists_or, exists_eq_left]
    cases hsig : signalOf subtaskId agentIds event with
    | none => simp [ih]
    | some found =>
      simp only [Option.some.injEq, contains_iff_mem]
      split_ifs with hfound
      · rw [ih]
        constructor
        · apply Or.inl
        · rintro (hold | rfl)
          · apply hold
          · apply ih.mp hfound
      · rw [mem_append, mem_singleton, ih, eq_comm (a := signal)]

theorem ExecutionStopReason.text_ne (reason : ExecutionStopReason) :
  reason.text ≠ "MaxTokens"
  := by
  cases reason with
  | error message =>
    intro htext
    have hhead : some 'e' = some 'M' := congrArg head? htext
    cases hhead
  | _ => decide

theorem signalOf_eq_some {subtaskId : SubtaskId} {agentIds : List AgentId} {event : SubtaskEvent}
    {signal : EscalationSignal} (hsig : signalOf subtaskId agentIds event = some signal) :
  signal = .replanRetry
    ∨ signal = .toolRepeatGuard ∧ ∃ agentId ∈ agentIds, ∃ tool attemptCount,
      event = .agent agentId (.toolRepeatGuardFired tool attemptCount)
  := by
  unfold signalOf at hsig
  split at hsig
  · split_ifs at hsig
    exact .inl (Option.some.inj hsig).symm
  · rename_i agentId tool attemptCount
    split_ifs at hsig with hmem
    exact .inr ⟨(Option.some.inj hsig).symm, agentId, contains_iff_mem.mp hmem, tool,
      attemptCount, rfl⟩
  · rename_i agentId reason iterations
    rw [decide_eq_false reason.text_ne, Bool.false_and] at hsig
    cases hsig
  · cases hsig
