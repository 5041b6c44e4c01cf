import AaOS.Tools.Limits

/-!
# The audit of tool calls

`ToolInvocation::invoke` of `aaos-tools/src/invocation.rs` with its records in the audit log and
its guard against repeated calls.  A call that is not charged is recorded as denied.  A charged
call is recorded with its surface and its result, unless the tool is to run in the daemon and is
not registered there.
-/

open List

/-! ### Records -/

/-- The kinds of the records of a tool call in the audit log. -/
inductive AuditEventKind where
  | capabilityDenied (capability : Capability) (reason : Text)
  | toolRepeat (tool inputHash : Text) (attemptCount : UInt32)
  | toolInvoked (tool inputHash argsPreview : Text) (executionSurface : ToolExecutionSurface)
  | toolResult (tool : Text) (success : Bool) (resultPreview : Text)
  | toolRepeatGuardFired (agentId : AgentId) (tool : Text) (attemptCount : UInt32)

/-- A tool call records an event, forwards the call with its tokens to the worker, or runs the
tool. -/
inductive InvokeAction where
  | record (agentId : AgentId) (kind : AuditEventKind)
  | invokeOverWorker (tokens : List CapabilityToken)
  | runTool

namespace InvokeAction

def isDenial : InvokeAction → Bool
  | record _ (.capabilityDenied ..) => true
  | _ => false

def isResult : InvokeAction → Bool
  | record _ (.toolResult ..) => true
  | _ => false

def isRun : InvokeAction → Bool
  | runTool => true
  | _ => false

def isForward : InvokeAction → Bool
  | invokeOverWorker _ => true
  | _ => false

def surface : InvokeAction → Option ToolExecutionSurface
  | record _ (.toolInvoked _ _ _ executionSurface) => some executionSurface
  | _ => none

end InvokeAction

/-! ### Previews -/

def previewCap : Nat := 200

def takeFitting : Nat → Text → Text
  | _, [] => []
  | n, c :: s => if c.utf8Size ≤ n then c :: takeFitting (n - c.utf8Size) s else []

def previewStr (s : Text) : Text :=
  if Text.utf8Len s ≤ previewCap then s else takeFitting previewCap s ++ "…"

def previewValue (jsonText : Json → Text) : Json → Text
  | .str s => previewStr s
  | .null => "null"
  | v => previewStr (jsonText v)

/-! ### Repeated calls -/

/-- How often a tool was called by an agent with an input of the same hash. -/
abbrev RepeatCounts : Type := Table (AgentId × Text × UInt64) UInt32

def repeatCountsMax : Nat := 1024

/-- Count a call; when there are too many counts, a quarter of them is dropped. -/
def countAttempt (counts : RepeatCounts) (key : AgentId × Text × UInt64) : UInt32 × RepeatCounts :=
  let counts :=
    if repeatCountsMax ≤ counts.keys.length ∧ key ∉ counts.keys then
      (counts.keys.take (repeatCountsMax / 4)).foldl (fun counts victim => counts.erase victim)
        counts
    else counts
  let attemptCount := (counts.lookup key).getD 0 + 1
  (attemptCount, counts.insert key attemptCount)

def insertField (name : Text) (value : Json) : Json → Json
  | .obj fields =>
    .obj (fields.filter (·.1 < name) ++ (name, value) :: fields.filter (name < ·.1))
  | v => v

def repeatGuard (toolName : Text) (attemptCount : UInt32) : Json :=
  let count := Nat.toDigits 10 attemptCount.toNat
  .obj [("attempt_count", jsonNat attemptCount.toNat),
    ("hint", .str ("You have called `" ++ toolName
      ++ "` with these exact arguments " ++ count ++ " times in this subtask. "
      ++ "The previous attempts returned the same result. "
      ++ "Try different arguments or a different tool."))]

/-! ### The call -/

/-- Why a call was not answered by the worker. -/
inductive WorkerInvokeError where
  | noSession
  | transport (message : Text)

/-- The surroundings of the audit, and the number of calls from which on they are repeated. -/
structure AuditSettings where
  hash : Text → UInt64
  jsonText : Json → Text
  texts : MessageTexts
  threshold : UInt32 := 3

def AuditSettings.md5Hash (settings : AuditSettings) (value : Json) : UInt64 :=
  settings.hash (settings.jsonText value)

/-- What the registry answers before the charge, and what the worker and the tool return. -/
structure InvocationOutcomes where
  permitted : CapabilityHandle → Bool
  worker : Except WorkerInvokeError Json
  tool : Except CoreError Json

structure AuditedCall where
  actions : List InvokeAction
  charged : Option CapabilityHandle
  result : Except CoreError Json
  registry : CapabilityRegistry
  counts : RepeatCounts

namespace ToolInvocation

variable (config : ToolInvocation) (settings : AuditSettings) (outcomes : InvocationOutcomes)

/-- The first check, with the reason in the audit log when it fails. -/
def chargeOrDeny (permitted : CapabilityHandle → Bool) (registry : CapabilityRegistry)
    (call : Invocation) :
    Except (Text × CoreError) (CapabilityRegistry × CapabilityHandle) :=
  let required : Capability := .toolInvoke call.toolName
  match call.tokenHandles.find? permitted with
  | none =>
    .error ("agent lacks tool:" ++ call.toolName ++ " capability",
      .capabilityDenied call.agentId required "tool invocation not permitted")
  | some handle =>
    match registry.authorizeAndRecord call.env.canonicalizer.run call.env.now handle
        call.agentId required with
    | (_, .error e) =>
      .error ("authorize_and_record failed (race lost or token "
          ++ "expired/revoked between permits and record): " ++ e.debug,
        .capabilityDenied call.agentId required
          ("capability use record failed: " ++ e.debug))
    | (registry, .ok _) => .ok (registry, handle)

def executeInDaemon (call : Invocation) :
    List InvokeAction × Except CoreError (ToolExecutionSurface × Except CoreError Json) :=
  if call.toolName ∈ config.registry then ([.runTool], .ok (.daemon, outcomes.tool))
  else ([], .error (.toolNotFound call.toolName))

def execute (registry : CapabilityRegistry) (call : Invocation) :
    List InvokeAction × Except CoreError (ToolExecutionSurface × Except CoreError Json) :=
  match config.surface call with
  | .daemon => config.executeInDaemon outcomes call
  | .worker =>
    let forward := .invokeOverWorker
      (registry.resolveTokens call.env.now call.tokenHandles call.agentId)
    match outcomes.worker with
    | .ok v => ([forward], .ok (.worker, .ok v))
    | .error .noSession =>
      let (actions, executed) := config.executeInDaemon outcomes call
      (forward :: actions, executed)
    | .error (.transport message) => ([forward], .ok (.worker, .error (.ipc message)))

def repeatRecords (call : Invocation) (attemptCount : UInt32) : List InvokeAction :=
  if settings.threshold ≤ attemptCount then
    [.record call.agentId (.toolRepeat call.toolName
      (Nat.toDigits 16 (settings.md5Hash call.input).toNat) attemptCount)]
  else []

def resultRecords (call : Invocation) (actualSurface : ToolExecutionSurface)
    (result : Except CoreError Json) (attemptCount : UInt32) : List InvokeAction :=
  let resultPreview :=
    match result with
    | .ok v => previewValue settings.jsonText v
    | .error e => previewStr (e.text settings.texts)
  [.record call.agentId (.toolInvoked call.toolName
      (Nat.toDigits 16 (settings.md5Hash call.input).toNat)
      (previewValue settings.jsonText call.input) actualSurface),
    .record call.agentId (.toolResult call.toolName result.isOk resultPreview)]
    ++ if settings.threshold ≤ attemptCount then
        [.record call.agentId (.toolRepeatGuardFired call.agentId call.toolName attemptCount)]
      else []

def hinted (call : Invocation) (result : Except CoreError Json) (attemptCount : UInt32) :
    Except CoreError Json :=
  if settings.threshold ≤ attemptCount then
    result.map (insertField "_repeat_guard" (repeatGuard call.toolName attemptCount))
  else result

/-- Invoke a tool on behalf of an agent, with the records of the call. -/
def invokeAudited (registry : CapabilityRegistry) (counts : RepeatCounts) (call : Invocation) :
    AuditedCall :=
  match chargeOrDeny outcomes.permitted registry call with
  | .error (reason, e) =>
    { actions := [.record call.agentId (.capabilityDenied (.toolInvoke call.toolName) reason)]
      charged := none
      result := .error e
      registry, counts }
  | .ok (registry, handle) =>
    let (attemptCount, counts) :=
      countAttempt counts (call.agentId, call.toolName, settings.md5Hash call.input)
    let (executions, executed) := config.execute outcomes registry call
    match executed with
    | .error e =>
      { actions := repeatRecords settings call attemptCount ++ executions
        charged := some handle
        result := .error e
        registry, counts }
    | .ok (actualSurface, result) =>
      { actions := repeatRecords settings call attemptCount ++ executions
          ++ resultRecords settings call actualSurface result attemptCount
        charged := some handle
        result := hinted settings call result attemptCount
        registry, counts }

end ToolInvocation

/-! ### What the log says of a call -/

def ranOn (actions : List InvokeAction) : ToolExecutionSurface :=
  if actions.any InvokeAction.isRun then .daemon else .worker

/-- A charged call has one record of the call, with its surface, and one of the result; another one
has one record of the denial, and no tool runs. -/
structure AuditedCall.Recorded (done : AuditedCall) : Prop where
  invoked : done.charged.isSome →
    done.actions.filterMap InvokeAction.surface = [ranOn done.actions]
  result : done.charged.isSome → done.actions.countP InvokeAction.isResult = 1
  denied : done.charged = none → done.actions.countP InvokeAction.isDenial = 1
  idle : done.charged = none →
    ∀ action ∈ done.actions, action.isRun = false ∧ action.isForward = false

/-- Actions other than the run of the tool and the records of the call and of its result. -/
def Quiet (actions : List InvokeAction) : Prop :=
  ∀ action ∈ actions, action.surface = none ∧ action.isResult = false ∧ action.isRun = false

namespace Quiet

variable {actions actions' : List InvokeAction}

variable (hquiet : Quiet actions)

include hquiet

theorem append (hquiet' : Quiet actions') :
  Quiet (actions ++ actions')
  := by
  intro action hmem
  obtain hmem | hmem := mem_append.mp hmem
  · apply hquiet action hmem
  · apply hquiet' action hmem

theorem filterMap_surface :
  actions.filterMap InvokeAction.surface = []
  := by
  apply filterMap_eq_nil_iff.mpr
  intro action hmem
  apply (hquiet action hmem).1

theorem countP_isResult :
  actions.countP InvokeAction.isResult = 0
  := by
  apply countP_eq_zero.mpr
  intro action hmem
  simp [(hquiet action hmem).2.1]

theorem any_isRun :
  actions.any InvokeAction.isRun = false
  := by
  apply any_eq_false.mpr
  intro action hmem
  simp [(hquiet action hmem).2.2]

end Quiet

namespace ToolInvocation

section Executions

variable {config : ToolInvocation} {settings : AuditSettings} {outcomes : InvocationOutcomes}
  {registry : CapabilityRegistry} {counts : RepeatCounts} {call : Invocation}

theorem quiet_repeatRecords (attemptCount : UInt32) :
  Quiet (repeatRecords settings call attemptCount)
  := by
  intro action hmem
  unfold repeatRecords at hmem
  split_ifs at hmem
  · rw [mem_singleton] at hmem
    subst hmem
    exact ⟨rfl, rfl, rfl⟩
  · cases hmem

theorem quiet_invokeOverWorker (tokens : List CapabilityToken) :
  Quiet [.invokeOverWorker tokens]
  := by
  intro action hmem
  rw [mem_singleton] at hmem
  subst hmem
  exact ⟨rfl, rfl, rfl⟩

variable (actualSurface : ToolExecutionSurface) (result : Except CoreError Json)

theorem filterMap_surface_resultRecords (attemptCount : UInt32) :
  (resultRecords settings call actualSurface result attemptCount).filterMap InvokeAction.surface
    = [actualSurface]
  := by
  unfold resultRecords
  split_ifs <;> rfl

theorem countP_isResult_resultRecords (attemptCount : UInt32) :
  (resultRecords settings call actualSurface result attemptCount).countP InvokeAction.isResult = 1
  := by
  unfold resultRecords
  split_ifs <;> rfl

theorem any_isRun_resultRecords (attemptCount : UInt32) :
  (resultRecords settings call actualSurface result attemptCount).any InvokeAction.isRun = false
  := by
  unfold resultRecords
  split_ifs <;> rfl

def Charges (permitted : CapabilityHandle → Bool) (registry : CapabilityRegistry)
    (call : Invocation) : Prop :=
  ∃ handle, call.tokenHandles.find? permitted = some handle
    ∧ (registry.authorizeAndRecord call.env.canonicalizer.run call.env.now handle call.agentId
        (.toolInvoke call.toolName)).2 = .ok ()

/-- The tool is to run in the daemon: there, or in a worker that the agent does not have. -/
def RunsInDaemon (config : ToolInvocation) (outcomes : InvocationOutcomes) (call : Invocation) :
    Prop :=
  config.surface call = .daemon ∨ outcomes.worker = .error .noSession

variable {permitted : CapabilityHandle → Bool}

theorem exists_charged_of_charges (hchar : Charges permitted registry call) :
  ∃ charged, chargeOrDeny permitted registry call = .ok charged
  := by
  obtain ⟨handle, hfind, hok⟩ := hchar
  use ((registry.authorizeAndRecord call.env.canonicalizer.run call.env.now handle call.agentId
    (.toolInvoke call.toolName)).1, handle)
  simp only [chargeOrDeny, hfind]
  split
  · rename_i h
    rw [h] at hok
    cases hok
  · rename_i h
    rw [h]

variable {charged : CapabilityRegistry × CapabilityHandle}

theorem charges_of_chargeOrDeny (hchar : chargeOrDeny permitted registry call = .ok charged) :
  Charges permitted registry call
  := by
  simp only [chargeOrDeny] at hchar
  split at hchar
  · cases hchar
  · rename_i handle hfind
    split at hchar
    · cases hchar
    · rename_i h
      exact ⟨handle, hfind, congrArg Prod.snd h⟩

theorem execute_of_not_runsInDaemon (hnot : ¬ config.RunsInDaemon outcomes call) :
  ∃ tokens result,
    config.execute outcomes registry call = ([.invokeOverWorker tokens], .ok (.worker, result))
  := by
  obtain ⟨hsur, hsess⟩ := not_or.mp hnot
  unfold execute
  split
  · rename_i h
    contradiction
  · use registry.resolveTokens call.env.now call.tokenHandles call.agentId
    split
    · rename_i v h
      use .ok v
    · contradiction
    · rename_i message h
      use .error (.ipc message)

theorem execute_of_runsInDaemon (registry : CapabilityRegistry)
    (hruns : config.RunsInDaemon outcomes call) :
  ∃ asked, Quiet asked ∧ config.execute outcomes registry call
    = (asked ++ (config.executeInDaemon outcomes call).1,
        (config.executeInDaemon outcomes call).2)
  := by
  unfold execute
  split
  · use []
    simp [Quiet]
  · rename_i hsur
    obtain h | hsess := hruns
    · rw [h] at hsur
      cases hsur
    · rw [hsess]
      refine ⟨[_], quiet_invokeOverWorker _, rfl⟩

theorem recorded_of_not_charges (hnot : ¬ Charges outcomes.permitted registry call) :
  (config.invokeAudited settings outcomes registry counts call).Recorded
  := by
  cases hchar : chargeOrDeny outcomes.permitted registry call with
  | ok charged => exact absurd (charges_of_chargeOrDeny hchar) hnot
  | error denied =>
    simp only [invokeAudited, hchar]
    constructor
    case invoked => rintro ⟨⟩
    case result => rintro ⟨⟩
    case denied =>
      intro _
      rfl
    case idle =>
      intro _ action hmem
      rw [mem_singleton] at hmem
      subst hmem
      exact ⟨rfl, rfl⟩

theorem recorded_of_execute {executions : List InvokeAction} {actualSurface : ToolExecutionSurface}
    {result : Except CoreError Json}
    (hchar : chargeOrDeny outcomes.permitted registry call = .ok charged)
    (hexec : config.execute outcomes charged.1 call = (executions, .ok (actualSurface, result)))
    (hinv : executions.filterMap InvokeAction.surface = [])
    (hres : executions.countP InvokeAction.isResult = 0) (hran : ranOn executions = actualSurface) :
  (config.invokeAudited settings outcomes registry counts call).Recorded
  := by
  simp only [invokeAudited, hchar, hexec]
  constructor
  case invoked =>
    intro _
    simp only [filterMap_append, (quiet_repeatRecords _).filterMap_surface, hinv,
      filterMap_surface_resultRecords, nil_append]
    rw [← hran]
    simp [ranOn, any_append, (quiet_repeatRecords _).any_isRun, any_isRun_resultRecords]
  case result =>
    intro _
    simp only [countP_append, (quiet_repeatRecords _).countP_isResult, hres,
      countP_isResult_resultRecords]
  case denied => rintro ⟨⟩
  case idle => rintro ⟨⟩

theorem not_recorded_of_notMem (hcharg : Charges outcomes.permitted registry call)
    (hruns : config.RunsInDaemon outcomes call) (hnot : call.toolName ∉ config.registry) :
  ¬ (config.invokeAudited settings outcomes registry counts call).Recorded
  := by
  obtain ⟨charged, hchar⟩ := exists_charged_of_charges hcharg
  obtain ⟨asked, hquiet, hexec⟩ := execute_of_runsInDaemon charged.1 hruns
  simp only [executeInDaemon, if_neg hnot, append_nil] at hexec
  intro hrec
  simp only [invokeAudited, hchar, hexec] at hrec
  have hinv := hrec.invoked rfl
  rw [((quiet_repeatRecords _).append hquiet).filterMap_surface] at hinv
  cases hinv

/-- Whatever the registries, the backend and the outcomes, the log accounts for a call exactly when
the tool is registered in the daemon if the call is charged and to run there. -/
theorem recorded_iff (config : ToolInvocation) (settings : AuditSettings)
    (outcomes : InvocationOutcomes) (registry : CapabilityRegistry) (counts : RepeatCounts)
    (call : Invocation) :
  (config.invokeAudited settings outcomes registry counts call).Recorded
    ↔ (Charges outcomes.permitted registry call → config.RunsInDaemon outcomes call →
        call.toolName ∈ config.registry)
  := by
  constructor
  · intro hrec hchar hruns
    by_contra hnot
    apply not_recorded_of_notMem hchar hruns hnot hrec
  · intro hreg
    by_cases hchar : Charges outcomes.permitted registry call
    · obtain ⟨charged, hcharg⟩ := exists_charged_of_charges hchar
      by_cases hruns : config.RunsInDaemon outcomes call
      · obtain ⟨asked, hquiet, hexec⟩ := execute_of_runsInDaemon charged.1 hruns
        simp only [executeInDaemon, if_pos (hreg hchar hruns)] at hexec
        apply recorded_of_execute hcharg hexec
        · rw [List.filterMap_append, hquiet.filterMap_surface]
          rfl
        · rw [List.countP_append, hquiet.countP_isResult]
          rfl
        · rw [ranOn, List.any_append, hquiet.any_isRun]
          rfl
      · obtain ⟨tokens, result, hexec⟩ := execute_of_not_runsInDaemon hruns
        apply recorded_of_execute hcharg hexec rfl rfl rfl
    · apply recorded_of_not_charges hchar

end Executions

def everyToolRegistry : CapabilityRegistry :=
  (CapabilityRegistry.new.insert ⟨0⟩ (toolToken 0 ['*'])).1

def unknownToolCall : Invocation := { callOf "calculator" .null with tokenHandles := [⟨0⟩] }

def unknownToolOutcomes : InvocationOutcomes where
  permitted h := everyToolRegistry.permits unknownToolCall.env.canonicalizer.run
    unknownToolCall.env.now h unknownToolCall.agentId (.toolInvoke unknownToolCall.toolName)
  worker := .error .noSession
  tool := .ok .null

def plainSettings : AuditSettings where
  hash _ := 0
  jsonText _ := []
  texts := ⟨fun _ => [], fun _ => []⟩

/-- A call is charged and leaves no record: the tool is not registered. -/
theorem not_recorded_unknownToolCall :
  ¬ (withoutWorkers.invokeAudited plainSettings unknownToolOutcomes everyToolRegistry ∅
      unknownToolCall).Recorded
  := by
  apply not_recorded_of_notMem
  · exact ⟨⟨0⟩, by decide, rfl⟩
  · left
    rfl
  · decide

end ToolInvocation
