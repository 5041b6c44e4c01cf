import AaOS.Lib.Broadcast
import AaOS.Lib.Machine
import AaOS.Runtime.Process

/-!
# The stream of the logs of an agent

`handle_logs_streaming` of `agentd/src/server.rs` checks that an agent exists, subscribes to the
broadcast of audit events, and writes the events of the agent until it completes or is
stopped.  Events between the check and the subscription are not received, nor the oldest ones when
the receiver is too far behind.
-/

open List Broadcast

/-! ### Events and frames -/

inductive LogEventKind (E : Type) where
  | usageReported (inputTokens outputTokens : UInt64)
  | agentExecutionCompleted (data : E)
  | agentLoopStopped (reason : Text) (data : E)
  | other (data : E)

structure LogEvent (E : Type) where
  agentId : AgentId
  event : LogEventKind E

inductive LogFrame (E : Type) where
  | event (event : LogEvent E)
  | lag (missed : Nat)
  | refusal (exitCode : Int) (error : Text)
  | ending (exitCode : Int) (usage : TokenUsage) (elapsedMs : UInt64)

def LogEventKind.exitCode {E : Type} : LogEventKind E → Option Int
  | agentExecutionCompleted _ => some 0
  | agentLoopStopped reason _ =>
    if reason = "error" ∨ reason = "budget_exceeded" then some 1 else some 0
  | _ => none

def LogEvent.Ends {E : Type} (target : AgentId) (event : LogEvent E) : Prop :=
  event.agentId = target ∧ event.event.exitCode.isSome = true

/-! ### The handler -/

/-- Before the check, between the check and the subscription, in the loop, or at the end. -/
inductive LogPhase where
  | starting
  | checked (target : AgentId)
  | receiving (target : AgentId) (next : Nat) (usage : TokenUsage)
  | returned

/-- A stream, with the events that were recorded since the agent was found. -/
structure LogStream (E : Type) where
  recorded : List (LogEvent E)
  phase : LogPhase
  frames : List (LogFrame E)

/-- An event is recorded, or the handler does a step; the client may have gone when an event is
written. -/
inductive LogInput (E : Type) where
  | record (event : LogEvent E)
  | check (registry : AgentRegistry)
  | subscribe
  | receive (connected : Bool) (elapsedMs : UInt64)

/-- Addition that stops at the greatest number. -/
def saturatingAdd (a b : UInt64) : UInt64 :=
  if a.toNat + b.toNat < 2 ^ 64 then a + b else 0xFFFFFFFFFFFFFFFF

namespace LogStream

variable {E : Type}

/-- The stream before the handler has done anything. -/
def starting : LogStream E where
  recorded := []
  phase := .starting
  frames := []

def refuse (s : LogStream E) (error : Text) : LogStream E :=
  { s with phase := .returned, frames := s.frames ++ [.refusal 2 error] }

def check (parseAgentId : Text → Option AgentId) (params : Json) (registry : AgentRegistry)
    (s : LogStream E) : LogStream E :=
  match (params.get "agent_id").bind Json.asStr with
  | none => s.refuse "missing 'agent_id' parameter"
  | some text =>
    match parseAgentId text with
    | none => s.refuse "invalid agent_id"
    | some target =>
      if (registry.agents.lookup target).isNone then s.refuse "agent not found"
      else { s with phase := .checked target }

/-- The loop takes an event that it has received. -/
def take (s : LogStream E) (target : AgentId) (next : Nat) (usage : TokenUsage)
    (connected : Bool) (elapsedMs : UInt64) (event : LogEvent E) : LogStream E :=
  if event.agentId ≠ target then { s with phase := .receiving target next usage }
  else
    match event.event with
    | .usageReported i o =>
      let usage := ⟨saturatingAdd usage.inputTokens i, saturatingAdd usage.outputTokens o⟩
      { s with phase := .receiving target next usage }
    | kind =>
      if !connected then { s with phase := .returned }
      else
        let frames := s.frames ++ [.event event]
        match kind.exitCode with
        | some exitCode =>
          { s with phase := .returned, frames := frames ++ [.ending exitCode usage elapsedMs] }
        | none => { s with phase := .receiving target next usage, frames := frames }

/-- One turn of the loop. -/
def receive (capacity : Nat) (s : LogStream E) (target : AgentId) (next : Nat)
    (usage : TokenUsage) (connected : Bool) (elapsedMs : UInt64) : LogStream E :=
  match Broadcast.recv capacity s.recorded next with
  | (.lagged missed, next) =>
    { s with phase := .receiving target next usage, frames := s.frames ++ [.lag missed] }
  | (.empty, _) => s
  | (.item event, next) => s.take target next usage connected elapsedMs event

variable (parseAgentId : Text → Option AgentId) (params : Json) (capacity : Nat)

/-- One step of the stream. -/
def step (s : LogStream E) (input : LogInput E) : LogStream E :=
  match s.phase, input with
  | .starting, .record _ => s
  | _, .record event => { s with recorded := s.recorded ++ [event] }
  | .starting, .check registry => s.check parseAgentId params registry
  | .checked target, .subscribe => { s with phase := .receiving target s.recorded.length {} }
  | .receiving target next usage, .receive connected elapsedMs =>
    s.receive capacity target next usage connected elapsedMs
  | _, _ => s

/-! ### Streams that wait in vain -/

/-- The handler has received all events and waits, and a terminal event was recorded since the agent
was found. -/
def Stuck (s : LogStream E) : Prop :=
  ∃ target next usage, s.phase = .receiving target next usage ∧ s.recorded.length ≤ next
    ∧ ∃ event ∈ s.recorded, event.Ends target

/-- When the handler has received the events there are, it is stuck. -/
def Strands (s : LogStream E) : Prop :=
  ∃ n, (Machine.after (step parseAgentId params capacity) s
    (List.replicate n (.receive true 0))).Stuck

/-- No terminal event is recorded before the subscription, or is the last one and gives way to a new
event. -/
def Kept (s : LogStream E) (input : LogInput E) : Prop :=
  match s.phase, input with
  | .checked target, .subscribe => ∀ event ∈ s.recorded, ¬ event.Ends target
  | .receiving target next _, .record event =>
    let unread := Broadcast.readable capacity s.recorded next
    (∃ e ∈ unread ++ [event], e.Ends target) →
      ∃ e ∈ (unread ++ [event]).drop (unread.length + 1 - capacity), e.Ends target
  | _, _ => True

/-! ### The turns of the loop -/

variable {parseAgentId params capacity} {s : LogStream E}

variable {target : AgentId}

theorem take_silent {event : LogEvent E} (next : Nat) (usage : TokenUsage) (connected : Bool)
    (elapsedMs : UInt64) (hsil : event.agentId ≠ target ∨ ∃ i o, event.event = .usageReported i o) :
  ∃ usage', s.take target next usage connected elapsedMs event
    = { s with phase := .receiving target next usage' }
  := by
  by_cases hother : event.agentId ≠ target
  · use usage
    rw [take, if_pos hother]
  · obtain hne | ⟨i, o, hkind⟩ := hsil
    · cases hother hne
    · use ⟨saturatingAdd usage.inputTokens i, saturatingAdd usage.outputTokens o⟩
      rw [take, if_neg hother]
      simp only [hkind]

/-- Every other event is written when the client is connected, and ends the loop when it is
terminal. -/
theorem take_written {event : LogEvent E} (next : Nat) (usage : TokenUsage) (connected : Bool)
    (elapsedMs : UInt64) (htar : event.agentId = target)
    (hkind : ∀ i o, event.event ≠ .usageReported i o) :
  s.take target next usage connected elapsedMs event
    = if connected then
        match event.event.exitCode with
        | some exitCode =>
          { s with
            phase := .returned
            frames := s.frames ++ [.event event] ++ [.ending exitCode usage elapsedMs] }
        | none =>
          { s with
            phase := .receiving target next usage
            frames := s.frames ++ [.event event] }
      else { s with phase := .returned }
  := by
  rw [take, if_neg (not_not.mpr htar)]
  split
  · rename_i i o heq
    cases hkind i o heq
  · cases connected <;> rfl

/-- The loop ends with a terminal event, or when the client has gone. -/
theorem take_cases (s : LogStream E) (target : AgentId) (next : Nat) (usage : TokenUsage)
    (connected : Bool) (elapsedMs : UInt64) (event : LogEvent E) :
  (s.take target next usage connected elapsedMs event).recorded = s.recorded
    ∧ (((s.take target next usage connected elapsedMs event).phase = .returned
        ∧ (connected = true → event.Ends target))
      ∨ ((∃ usage', (s.take target next usage connected elapsedMs event).phase
          = .receiving target next usage') ∧ ¬ event.Ends target))
  := by
  by_cases hsil : event.agentId ≠ target ∨ ∃ i o, event.event = .usageReported i o
  · obtain ⟨usage', heq⟩ := take_silent (s := s) next usage connected elapsedMs hsil
    rw [heq]
    refine ⟨rfl, .inr ⟨⟨usage', rfl⟩, ?_⟩⟩
    rintro ⟨htar, hends⟩
    obtain hne | ⟨i, o, hkind⟩ := hsil
    · apply hne htar
    · rw [hkind] at hends
      cases hends
  · push Not at hsil
    rw [take_written next usage connected elapsedMs hsil.1 hsil.2]
    obtain rfl | rfl := connected.eq_false_or_eq_true
    · obtain hnone | ⟨exitCode, hexit⟩ := event.event.exitCode.eq_none_or_eq_some
      · rw [hnone]
        refine ⟨rfl, .inr ⟨⟨usage, rfl⟩, ?_⟩⟩
        rintro ⟨-, hends⟩
        rw [hnone] at hends
        cases hends
      · rw [hexit]
        refine ⟨rfl, .inl ⟨rfl, ?_⟩⟩
        intro _
        exact ⟨hsil.1, by rw [hexit]; rfl⟩
    · refine ⟨rfl, .inl ⟨rfl, ?_⟩⟩
      rintro ⟨⟩

/-- A turn of the loop ends it, or moves it past events that are not terminal. -/
theorem receive_cases (capacity : Nat) {next : Nat} {usage : TokenUsage}
    (hphase : s.phase = .receiving target next usage) (connected : Bool) (elapsedMs : UInt64) :
  (s.receive capacity target next usage connected elapsedMs).recorded = s.recorded
    ∧ (((s.receive capacity target next usage connected elapsedMs).phase = .returned
        ∧ (connected = true →
          ∃ event ∈ readable capacity s.recorded next, event.Ends target))
      ∨ ∃ next' usage' passed,
          (s.receive capacity target next usage connected elapsedMs).phase
              = .receiving target next' usage'
            ∧ readable capacity s.recorded next
              = passed ++ readable capacity s.recorded next'
            ∧ (∀ event ∈ passed, ¬ event.Ends target)
            ∧ (next' = next ∧ s.recorded.length ≤ next
              ∨ next < next' ∧ next' ≤ s.recorded.length))
  := by
  obtain ⟨missed, hrecv, hlt, hread⟩ | ⟨hrecv, hle⟩ | ⟨event, hrecv, hlt, hread⟩ :=
    recv_cases capacity s.recorded next
  · simp only [receive, hrecv]
    refine ⟨trivial, .inr ⟨_, usage, [], rfl, hread.symm, ?_, .inr ⟨hlt, by omega⟩⟩⟩
    rintro event ⟨⟩
  · simp only [receive, hrecv]
    refine ⟨trivial, .inr ⟨next, usage, [], hphase, rfl, ?_, .inl ⟨rfl, hle⟩⟩⟩
    rintro event ⟨⟩
  · simp only [receive, hrecv]
    obtain ⟨hrec, ⟨hret, hends⟩ | ⟨⟨usage', hreceiv⟩, hends⟩⟩ :=
      take_cases s target (next + 1) usage connected elapsedMs event
    · refine ⟨hrec, .inl ⟨hret, ?_⟩⟩
      intro hcon
      use event
      rw [hread]
      exact ⟨mem_cons_self, hends hcon⟩
    · refine ⟨hrec, .inr ⟨next + 1, usage', [event], hreceiv, hread, ?_,
        .inr ⟨Nat.lt_succ_self next, hlt⟩⟩⟩
      intro event' hmem
      rw [mem_singleton.mp hmem]
      apply hends

/-! ### What is kept -/

/-- While the handler is in its loop, a terminal event that was recorded can still be received. -/
structure Sound (capacity : Nat) (s : LogStream E) : Prop where
  position : ∀ target next usage, s.phase = .receiving target next usage →
    next ≤ s.recorded.length
  unread : ∀ target next usage, s.phase = .receiving target next usage →
    (∃ event ∈ s.recorded, event.Ends target) →
      ∃ event ∈ Broadcast.readable capacity s.recorded next, event.Ends target

theorem Sound.not_stuck (hsound : s.Sound capacity) : ¬ s.Stuck := by
  rintro ⟨target, next, usage, hphase, hle, hends⟩
  obtain ⟨event, hmem, -⟩ := hsound.unread target next usage hphase hends
  rw [readable_eq_nil hle] at hmem
  cases hmem

theorem sound_of_phase_ne (hphase : ∀ target next usage, s.phase ≠ .receiving target next usage) :
  s.Sound capacity
  := by
  constructor
  case position =>
    intro target next usage heq
    cases hphase target next usage heq
  case unread =>
    intro target next usage heq
    cases hphase target next usage heq

theorem Sound.receive (hsound : s.Sound capacity) {next : Nat} {usage : TokenUsage}
    (hphase : s.phase = .receiving target next usage) (connected : Bool) (elapsedMs : UInt64) :
  (s.receive capacity target next usage connected elapsedMs).Sound capacity
  := by
  obtain ⟨hrecor, ⟨hret, -⟩ | ⟨next', usage', passed, hrec, hread, hpass,
    hnext⟩⟩ := receive_cases capacity hphase connected elapsedMs
  · apply sound_of_phase_ne
    intro target' next' usage' heq
    cases hret.symm.trans heq
  · constructor
    case position =>
      intro target' next'' usage'' heq
      cases hrec.symm.trans heq
      have hpos := hsound.position target next usage hphase
      rw [hrecor]
      omega
    case unread =>
      intro target' next'' usage'' heq hends
      cases hrec.symm.trans heq
      rw [hrecor] at hends ⊢
      obtain ⟨event, hmem, hevent⟩ := hsound.unread target next usage hphase hends
      rw [hread] at hmem
      obtain hmem | hmem := mem_append.mp hmem
      · cases hpass event hmem hevent
      · use event

/-- The handler is in its loop, and can receive no terminal event of the agent though one was
recorded. -/
def Lost (capacity : Nat) (s : LogStream E) : Prop :=
  ∃ target next usage, s.phase = .receiving target next usage
    ∧ (∃ event ∈ s.recorded, event.Ends target)
    ∧ ∀ event ∈ Broadcast.readable capacity s.recorded next, ¬ event.Ends target

/-- A handler that can receive no terminal event receives what there is, and is stuck. -/
theorem Lost.strands (hlost : s.Lost capacity) : s.Strands parseAgentId params capacity := by
  obtain ⟨target, next, usage, hphase, hends, hnone⟩ := hlost
  induction hunr : s.recorded.length - next using Nat.strong_induction_on
    generalizing s next usage with
  | _ unread ih =>
    obtain hle | hlt := Nat.lt_or_ge next s.recorded.length |>.symm
    · refine ⟨0, target, next, usage, hphase, hle, hends⟩
    · obtain ⟨hrec, ⟨-, hread⟩ | ⟨next', usage', passed, hreceiv, hreadab, -, hnext⟩⟩ :=
        receive_cases capacity hphase true 0
      · obtain ⟨event, hmem, hevent⟩ := hread rfl
        cases hnone event hmem hevent
      · have hstep : s.step parseAgentId params capacity (.receive true 0)
            = s.receive capacity target next usage true 0 := by
          simp only [step, hphase]
        obtain ⟨n, hstuck⟩ := ih (s.recorded.length - next') (by omega) next' usage' hreceiv
          (by rwa [hrec]) (by
            intro event hmem
            rw [hrec] at hmem
            apply hnone event
            rw [hreadab]
            apply mem_append_right _ hmem) (by rw [hrec])
        use n + 1
        rw [replicate_succ]
        simpa only [Machine.after, foldl_cons, hstep] using hstuck

theorem sound_check (parseAgentId : Text → Option AgentId) (params : Json)
    (registry : AgentRegistry) (s : LogStream E) :
  (s.check parseAgentId params registry).Sound capacity
  := by
  apply sound_of_phase_ne
  intro target next usage heq
  unfold check at heq
  split at heq
  · cases heq
  · split at heq
    · cases heq
    · split_ifs at heq
      cases heq

theorem Sound.record (hsound : s.Sound capacity) (event : LogEvent E)
    (hkept : s.Kept capacity (.record event)) :
  Sound capacity { s with recorded := s.recorded ++ [event] }
  := by
  constructor
  case position =>
    intro target next usage hphase
    rw [length_append]
    apply Nat.le_add_right_of_le (hsound.position target next usage hphase)
  case unread =>
    intro target next usage hphase
    rintro ⟨e, hmem, hends⟩
    simp only [Kept, show s.phase = _ from hphase] at hkept
    rw [readable_concat (hsound.position target next usage hphase)]
    apply hkept
    obtain hmem | hmem := mem_append.mp hmem
    · obtain ⟨e', hmem', hends'⟩ := hsound.unread target next usage hphase ⟨e, hmem, hends⟩
      use e', mem_append_left _ hmem'
    · use e, mem_append_right _ hmem

theorem Sound.subscribe (hnone : ∀ event ∈ s.recorded, ¬ event.Ends target) (usage : TokenUsage) :
  Sound capacity { s with phase := .receiving target s.recorded.length usage }
  := by
  constructor
  case position =>
    rintro _ _ _ ⟨⟩
    apply Nat.le_refl
  case unread =>
    rintro _ _ _ ⟨⟩ ⟨event, hmem, hends⟩
    cases hnone event hmem hends

theorem sound_step (s : LogStream E) (input : LogInput E) (hsound : s.Sound capacity)
    (hkept : s.Kept capacity input) :
  (s.step parseAgentId params capacity input).Sound capacity
  := by
  unfold step
  split
  · apply hsound
  · apply hsound.record _ hkept
  · apply sound_check
  · rename_i target hphase
    simp only [Kept, hphase] at hkept
    apply Sound.subscribe hkept
  · rename_i hphase
    apply hsound.receive hphase
  · apply hsound

theorem kept_receive (s : LogStream E) (connected : Bool) (elapsedMs : UInt64) :
  s.Kept capacity (.receive connected elapsedMs)
  := by
  rcases hphase : s.phase <;> simp only [Kept, hphase]

theorem Sound.not_strands (s : LogStream E) (hsound : s.Sound capacity) :
  ¬ s.Strands parseAgentId params capacity
  := by
  rintro ⟨n, hstuck⟩
  have hkept : Machine.EveryStep (step parseAgentId params capacity) (Kept capacity) s
      (replicate n (.receive true 0)) := by
    intro before input rest heq
    have hmem : input ∈ replicate n (LogInput.receive true 0) := by simp [heq]
    rw [eq_of_mem_replicate hmem]
    apply kept_receive
  have hsound' := hkept.invariant sound_step hsound
  apply hsound'.not_stuck hstuck

theorem kept_of_not_strands {input : LogInput E} (hsound : s.Sound capacity)
    (hstr : ¬ (s.step parseAgentId params capacity input).Strands parseAgentId params capacity) :
  s.Kept capacity input
  := by
  unfold Kept
  split
  · rename_i target hphase
    intro event hmem hends
    apply hstr
    simp only [step, hphase]
    use 0, target, s.recorded.length, {}, rfl, Nat.le_refl _, event, hmem
  · rename_i target next usage event hphase
    intro unread hends
    by_contra hnone
    push Not at hnone
    apply hstr
    apply Lost.strands
    simp only [step, hphase]
    use target, next, usage, rfl
    constructor
    · obtain ⟨e, hmem, hends⟩ := hends
      use e
      refine ⟨?_, hends⟩
      obtain hmem | hmem := mem_append.mp hmem
      · apply mem_append_left _ (readable_subset hmem)
      · apply mem_append_right _ hmem
    · rw [readable_concat (hsound.position target next usage hphase)]
      apply hnone
  · trivial

/-- Throughout a run, the handler is not stuck once it has received the events exactly when no step
loses the terminal events of the agent. -/
theorem not_strands_iff_kept (parseAgentId : Text → Option AgentId) (params : Json)
    (capacity : Nat) (inputs : List (LogInput E)) :
  Machine.Always (step parseAgentId params capacity)
      (fun s => ¬ s.Strands parseAgentId params capacity) starting inputs
    ↔ Machine.EveryStep (step parseAgentId params capacity) (Kept capacity) starting inputs
  := by
  apply Machine.always_iff_everyStep (I := Sound capacity)
  · apply Sound.not_strands
  · apply sound_step
  · intro s input hsound hstr
    apply kept_of_not_strands hsound hstr
  · apply sound_of_phase_ne
    rintro target next usage ⟨⟩

def oneAgent : AgentRegistry :=
  let manifest : AgentManifest :=
    { name := "writer"
      model := "model"
      systemPrompt := .inline "Write."
      capabilities := []
      budgetConfig := none }
  { AgentRegistry.newWithLimit 100 with
    agents := (∅ : Table _ _).insert ⟨0⟩ (AgentProcess.new manifest [] 0)
    activeCount := 1 }

def lateRun : List (LogInput Unit) :=
  [.check oneAgent, .record ⟨⟨0⟩, .agentExecutionCompleted ()⟩, .subscribe]

/-- The handler waits for an event of an agent that has completed its execution. -/
theorem stuck_lateRun :
  (Machine.after (step (fun _ => some ⟨0⟩) (.obj [("agent_id".toList, .str [])]) 256) starting
    lateRun).Stuck
  := by
  use ⟨0⟩, 1, {}, rfl, Nat.le_refl 1
  use ⟨⟨0⟩, .agentExecutionCompleted ()⟩, List.mem_singleton.mpr rfl
  exact ⟨rfl, rfl⟩

end LogStream
