import AaOS.Executor.Loop
import AaOS.Plan.Structure

/-!
# Events and errors of plans

What is recorded in the audit log while a plan is executed, and the errors of the
executor.  The agents that work on the subtasks record events of their own; of those, the
executor of the plan looks at the ones that a signal is drawn from.
-/

inductive AgentEvent where
  | executionStarted (messagePreview : Text)
  | executionCompleted (stopReason : ExecutionStopReason) (totalIterations : UInt32)
  | toolRepeatGuardFired (tool : Text) (attemptCount : UInt32)

/-- What the executor records about a subtask, and what the agents record. -/
inductive SubtaskEvent where
  | ttlExpired (subtaskId : SubtaskId) (reason : Text)
  | started (subtaskId : SubtaskId) (role : Text)
  | completed (agentId : AgentId) (subtaskId : SubtaskId) (success : Bool)
  | outputMissing (agentId : AgentId) (subtaskId : SubtaskId) (declaredPath : Text)
  | agent (agentId : AgentId) (event : AgentEvent)

/-- What a failed attempt shows about a subtask. -/
structure FailedSubtask where
  subtaskId : SubtaskId
  role : Text
  observedSignals : List EscalationSignal

/-- An error of the executor of a plan. -/
inductive ExecutorError where
  | correctable (reason : Text) (failures : List FailedSubtask := [])
  | terminal (e : CoreError)

/-- The text of an error of the executor. -/
def ExecutorError.text (texts : MessageTexts) : ExecutorError → Text
  | correctable reason _ => "planner-correctable: " ++ reason
  | terminal e => "terminal: " ++ e.text texts
