import AaOS.Lib.Broadcast
import AaOS.Lib.Machine
import AaOS.Plan.Execution

/-!
# The stream of a submitted goal

`handle_submit_streaming` of `agentd/src/server.rs` subscribes to the broadcast of audit events,
lets a plan be executed, and writes the events it receives until the execution is over.  The end
may be taken while events are still to be received, which are then not written.
-/

open List

/-! ### Frames -/

/-- What is written to the client. -/
inductive StreamFrame (E : Type) where
  | event (event : E)
  | lag (missed : Nat)
  | plan (plan : Plan)
  | finalText (text : Text)
  | ending (exitCode : Int) (error : Option Text) (inputTokens outputTokens elapsedMs : UInt64)

namespace StreamFrame

variable {E : Type}

def event? : StreamFrame E → Option E
  | event e => some e
  | _ => none

def isEnding : StreamFrame E → Bool
  | ending .. => true
  | _ => false

end StreamFrame

/-- How the task of the execution ends. -/
inductive ExecTaskResult where
  | completed (result : PlanResult)
  | failed (e : ExecutorError)
  | panicked (message : Text)

namespace ExecTaskResult

variable {E : Type}

/-- The text of the last subtask, unless it is empty. -/
def finalText (result : PlanResult) : List (StreamFrame E) :=
  match result.plan.subtasks.getLast?.bind fun last => result.results.lookup last.id with
  | some r => if r.response = [] then [] else [.finalText r.response]
  | none => []

/-- The frames before the end frame. -/
def closing : ExecTaskResult → List (StreamFrame E)
  | completed result => .plan result.plan :: finalText result
  | _ => []

def ending (texts : MessageTexts) (elapsedMs : UInt64) : ExecTaskResult → StreamFrame E
  | completed result =>
    let tokens := result.results.entries.foldl
      (fun (a, b) r => (a + r.2.inputTokens, b + r.2.outputTokens)) ((0, 0) : UInt64 × UInt64)
    .ending 0 none tokens.1 tokens.2 elapsedMs
  | failed e => .ending 1 (some (e.text texts)) 0 0 elapsedMs
  | panicked message => .ending 1 (some ("executor task panic: " ++ message)) 0 0 elapsedMs

end ExecTaskResult

/-! ### The loop -/

/-- The events since the subscription, the position of the receiver, the result with the number of
events before it, and the frames that were written. -/
structure SubmitStream (E : Type) where
  sent : List E
  next : Nat
  execution : Option (ExecTaskResult × Nat)
  frames : List (StreamFrame E)
  returned : Bool

/-- What happens: an event is broadcast, the execution is over, or the loop takes a turn. -/
inductive StreamInput (E : Type) where
  | record (event : E)
  | complete (result : ExecTaskResult)
  | receive (connected : Bool)
  | finish (elapsedMs : UInt64)

namespace SubmitStream

variable {E : Type}

/-- The stream at the subscription. -/
def subscribed : SubmitStream E where
  sent := []
  next := 0
  execution := none
  frames := []
  returned := false

variable (capacity : Nat) (texts : MessageTexts)

/-- Receive an event; a receiver that is too far behind is moved to the oldest event that is
left. -/
def receive (s : SubmitStream E) (connected : Bool) : SubmitStream E :=
  match Broadcast.recv capacity s.sent s.next with
  | (.lagged missed, next) => { s with frames := s.frames ++ [.lag missed], next }
  | (.empty, _) => s
  | (.item event, next) =>
    if connected then { s with frames := s.frames ++ [.event event], next }
    else { s with next, returned := true }

def finish (s : SubmitStream E) (elapsedMs : UInt64) : SubmitStream E :=
  match s.execution with
  | none => s
  | some (result, _) =>
    { s with
      frames := s.frames ++ (result.closing ++ [result.ending texts elapsedMs])
      returned := true }

/-- One step of the stream. -/
def step (s : SubmitStream E) : StreamInput E → SubmitStream E
  | .record event => { s with sent := s.sent ++ [event] }
  | .complete result =>
    if s.execution.isSome then s else { s with execution := some (result, s.sent.length) }
  | .receive connected => if s.returned then s else s.receive capacity connected
  | .finish elapsedMs => if s.returned then s else s.finish texts elapsedMs

/-! ### Complete streams -/

/-- The events that were written. -/
def written (s : SubmitStream E) : List E := s.frames.filterMap StreamFrame.event?

/-- The events that were broadcast before the execution was over. -/
def owed (s : SubmitStream E) : List E :=
  match s.execution with
  | none => []
  | some (_, n) => s.sent.take n

/-- The events written are the first ones recorded, in order; those of the run before its end are
among them; and the end frame is written once, at the end. -/
structure Streamed (ofRun : E → Bool) (s : SubmitStream E) : Prop where
  ordered : s.written <+: s.sent
  complete : s.owed.filter ofRun <+: s.written.filter ofRun
  closed : ∃ before last, s.frames = before ++ [last] ∧ last.isEnding = true
    ∧ ∀ frame ∈ before, frame.isEnding = false

/-- A step in which the client is connected and the receiver is not too far behind. -/
def Undisturbed (s : SubmitStream E) : StreamInput E → Prop
  | .receive connected => connected = true ∧ s.sent.length ≤ s.next + capacity
  | _ => True

/-- When the end of the execution is taken, the events of the run broadcast before it have been
received. -/
def Drained (ofRun : E → Bool) (s : SubmitStream E) : StreamInput E → Prop
  | .finish _ => s.returned = false → ∀ event ∈ s.owed.drop s.next, ofRun event = false
  | _ => True

/-! ### The steps -/

variable {capacity : Nat} {texts : MessageTexts} {ofRun : E → Bool} {s : SubmitStream E}

/-- While the handler runs, the frames are those of the events up to its position; when it has
returned, the stream is complete. -/
structure Sound (ofRun : E → Bool) (s : SubmitStream E) : Prop where
  position : s.next ≤ s.sent.length
  finished : ∀ result n, s.execution = some (result, n) → n ≤ s.sent.length
  running : s.returned = false → s.frames = (s.sent.take s.next).map .event
  executed : s.returned = true → s.execution.isSome
  ended : s.returned = true → s.Streamed ofRun

theorem filterMap_map_event (events : List E) :
  (events.map StreamFrame.event).filterMap StreamFrame.event? = events
  := by
  rw [filterMap_map]
  apply filterMap_some

theorem event?_of_mem_closing {result : ExecTaskResult} {frame : StreamFrame E}
    (hmem : frame ∈ result.closing) :
  frame.event? = none ∧ frame.isEnding = false
  := by
  cases result with
  | completed result =>
    obtain rfl | hmem := mem_cons.mp hmem
    · exact ⟨rfl, rfl⟩
    · unfold ExecTaskResult.finalText at hmem
      split at hmem
      · split_ifs at hmem
        · cases hmem
        · rw [mem_singleton.mp hmem]
          exact ⟨rfl, rfl⟩
      · cases hmem
  | failed e => cases hmem
  | panicked message => cases hmem

theorem isEnding_ending (result : ExecTaskResult) (elapsedMs : UInt64) :
  (result.ending texts elapsedMs : StreamFrame E).event? = none
    ∧ (result.ending texts elapsedMs : StreamFrame E).isEnding = true
  := by
  cases result <;> exact ⟨rfl, rfl⟩

theorem filter_isPrefix_iff (sent : List E) (next n : Nat) :
  (sent.take n).filter ofRun <+: (sent.take next).filter ofRun
    ↔ ∀ event ∈ (sent.take n).drop next, ofRun event = false
  := by
  have hsplit : (sent.take n).filter ofRun
      = ((sent.take n).take next).filter ofRun ++ ((sent.take n).drop next).filter ofRun := by
    rw [← filter_append, take_append_drop]
  constructor
  · intro hfirst
    obtain hle | hle := Nat.le_total n next
    · intro event hmem
      rw [drop_of_length_le (by simp; omega)] at hmem
      cases hmem
    · have hlen := hfirst.length_le
      rw [hsplit, take_take, Nat.min_eq_left hle, length_append] at hlen
      have hnone : ((sent.take n).drop next).filter ofRun = [] := by
        apply length_eq_zero_iff.mp
        omega
      simpa using filter_eq_nil_iff.mp hnone
  · intro hnone
    have hnil : ((sent.take n).drop next).filter ofRun = [] := by
      apply filter_eq_nil_iff.mpr
      simpa using hnone
    rw [hsplit, hnil, append_nil, take_take]
    apply List.IsPrefix.filter
    apply take_prefix_take_left
    omega

theorem written_finish (texts : MessageTexts) (s : SubmitStream E) (elapsedMs : UInt64) :
  (s.finish texts elapsedMs).written = s.written
  := by
  unfold finish
  split
  · rfl
  · rename_i result n hexec
    have hclose : result.closing.filterMap (StreamFrame.event? (E := E)) = [] := by
      apply filterMap_eq_nil_iff.mpr
      intro frame hmem
      apply (event?_of_mem_closing hmem).1
    have hend : (result.ending texts elapsedMs : StreamFrame E).event? = none :=
      (isEnding_ending result elapsedMs).1
    rw [written, filterMap_append, filterMap_append, hclose, written]
    simp [hend]

theorem streamed_finish_iff (texts : MessageTexts) (hsound : s.Sound ofRun)
    (hret : s.returned = false) (hexec : s.execution.isSome) (elapsedMs : UInt64) :
  (s.finish texts elapsedMs).Streamed ofRun
    ↔ ∀ event ∈ s.owed.drop s.next, ofRun event = false
  := by
  have hwrite : (s.finish texts elapsedMs).written = s.sent.take s.next := by
    rw [written_finish, written, hsound.running hret, filterMap_map_event]
  obtain ⟨⟨result, n⟩, hsome⟩ := Option.isSome_iff_exists.mp hexec
  have howed : s.owed = s.sent.take n := by
    simp only [owed, hsome]
  have howed' : (s.finish texts elapsedMs).owed = s.sent.take n := by
    simp only [finish, owed, hsome]
  rw [howed, ← filter_isPrefix_iff]
  constructor
  · intro hstr
    have hcom := hstr.complete
    rw [howed', hwrite] at hcom
    apply hcom
  · intro hcom
    constructor
    case ordered =>
      rw [hwrite]
      simp only [finish, hsome]
      apply take_prefix
    case complete =>
      rw [howed', hwrite]
      apply hcom
    case closed =>
      use s.frames ++ result.closing, result.ending texts elapsedMs
      refine ⟨?_, (isEnding_ending result elapsedMs).2, ?_⟩
      · simp [finish, hsome]
      · intro frame hmem
        obtain hmem | hmem := mem_append.mp hmem
        · rw [hsound.running hret] at hmem
          obtain ⟨event, -, rfl⟩ := mem_map.mp hmem
          rfl
        · apply (event?_of_mem_closing hmem).2

theorem sound_subscribed : (subscribed : SubmitStream E).Sound ofRun := by
  constructor
  case position => apply Nat.le_refl
  case finished => rintro result n ⟨⟩
  case running =>
    intro _
    rfl
  case executed => rintro ⟨⟩
  case ended => rintro ⟨⟩

theorem Sound.record (hsound : s.Sound ofRun) (event : E) :
  ({ s with sent := s.sent ++ [event] } : SubmitStream E).Sound ofRun
  := by
  constructor
  case position =>
    have hpos := hsound.position
    simp only [length_append]
    omega
  case finished =>
    intro result n hexec
    have hfin := hsound.finished result n hexec
    simp only [length_append]
    omega
  case running =>
    intro hret
    rw [take_append_of_le_length hsound.position]
    apply hsound.running hret
  case executed => apply hsound.executed
  case ended =>
    intro hret
    have hstr := hsound.ended hret
    constructor
    case ordered => apply hstr.ordered.trans (prefix_append _ _)
    case complete =>
      have howed : ({ s with sent := s.sent ++ [event] } : SubmitStream E).owed = s.owed := by
        obtain hnone | ⟨⟨result, n⟩, hexec⟩ := s.execution.eq_none_or_eq_some
        · simp only [owed, hnone]
        · simp only [owed, hexec]
          apply take_append_of_le_length
          apply hsound.finished result n hexec
      rw [howed]
      apply hstr.complete
    case closed => apply hstr.closed

theorem Sound.complete (hsound : s.Sound ofRun) (hexec : s.execution = none)
    (result : ExecTaskResult) :
  ({ s with execution := some (result, s.sent.length) } : SubmitStream E).Sound ofRun
  := by
  constructor
  case position => apply hsound.position
  case finished =>
    rintro _ _ ⟨⟩
    apply Nat.le_refl
  case running => apply hsound.running
  case executed =>
    intro _
    rfl
  case ended =>
    intro hret
    have hsome := hsound.executed hret
    rw [hexec] at hsome
    cases hsome

theorem receive_eq_of_some (hnear : s.sent.length ≤ s.next + capacity) {event : E}
    (hevent : s.sent[s.next]? = some event) (connected : Bool) :
  s.receive capacity connected
    = if connected then { s with frames := s.frames ++ [.event event], next := s.next + 1 }
      else { s with next := s.next + 1, returned := true }
  := by
  rw [receive, Broadcast.recv, if_neg (by omega), hevent]

theorem receive_eq_of_none (hnear : s.sent.length ≤ s.next + capacity)
    (hnone : s.sent[s.next]? = none) (connected : Bool) :
  s.receive capacity connected = s
  := by
  rw [receive, Broadcast.recv, if_neg (by omega), hnone]

theorem Sound.receive (hsound : s.Sound ofRun) (hret : s.returned = false)
    (hnear : s.sent.length ≤ s.next + capacity) :
  (s.receive capacity true).Sound ofRun
  := by
  obtain hnone | ⟨event, hevent⟩ := s.sent[s.next]?.eq_none_or_eq_some
  · rw [receive_eq_of_none hnear hnone]
    apply hsound
  · obtain ⟨hlt, heq⟩ := List.getElem?_eq_some_iff.mp hevent
    rw [receive_eq_of_some hnear hevent, if_pos rfl]
    constructor
    case position => apply hlt
    case finished => apply hsound.finished
    case running =>
      intro _
      rw [take_succ_eq_append_getElem hlt, map_append, ← hsound.running hret, heq]
      rfl
    case executed =>
      intro hended
      cases hended.symm.trans hret
    case ended =>
      intro hended
      cases hended.symm.trans hret

theorem Sound.finish (hsound : s.Sound ofRun) (hret : s.returned = false)
    (hdrain : ∀ event ∈ s.owed.drop s.next, ofRun event = false) (elapsedMs : UInt64) :
  (s.finish texts elapsedMs).Sound ofRun
  := by
  obtain hnone | ⟨executed, hexec⟩ := s.execution.eq_none_or_eq_some
  · simpa only [SubmitStream.finish, hnone] using hsound
  · have hsome : s.execution.isSome := by simp [hexec]
    have hstr := (streamed_finish_iff texts hsound hret hsome elapsedMs).mpr hdrain
    simp only [SubmitStream.finish, hexec] at hstr ⊢
    constructor
    case position => apply hsound.position
    case finished =>
      intro result n heq
      apply hsound.finished result n (hexec.trans heq)
    case running => rintro ⟨⟩
    case executed =>
      intro _
      rfl
    case ended =>
      intro _
      apply hstr

theorem sound_step (hsound : s.Sound ofRun) {input : StreamInput E}
    (hund : s.Undisturbed capacity input) (hdrain : s.Drained ofRun input) :
  (s.step capacity texts input).Sound ofRun
  := by
  cases input with
  | record event => apply hsound.record
  | complete result =>
    simp only [step]
    split_ifs with hsome
    · apply hsound
    · apply hsound.complete
      simpa using hsome
  | receive connected =>
    obtain ⟨rfl, hnear⟩ := hund
    simp only [step]
    split_ifs with hret
    · apply hsound
    · apply hsound.receive _ hnear
      simpa using hret
  | finish elapsedMs =>
    simp only [step]
    split_ifs with hret
    · apply hsound
    · have hrun : s.returned = false := by simpa using hret
      apply hsound.finish hrun (hdrain hrun)

/-- In every run with a connected client and a receiver that is never too far behind, ended streams
are complete exactly when the end of the execution is always taken after the events of the run that
were broadcast before it. -/
theorem streamed_run_iff (capacity : Nat) (texts : MessageTexts) (ofRun : E → Bool)
    {inputs : List (StreamInput E)}
    (hundisturbed : Machine.EveryStep (step capacity texts) (Undisturbed capacity) subscribed
      inputs) :
  Machine.Always (step capacity texts) (fun s => s.returned = true → s.Streamed ofRun) subscribed
      inputs
    ↔ Machine.EveryStep (step capacity texts) (Drained ofRun) subscribed inputs
  := by
  apply Machine.always_iff_everyStep_of_everyStep (I := Sound ofRun) hundisturbed
  · intro s hsound
    apply hsound.ended
  · intro s input hundisturbed hsound hdrain
    apply sound_step hsound hundisturbed hdrain
  · intro s input _ hsound hstr
    cases input with
    | record event => trivial
    | complete result => trivial
    | receive connected => trivial
    | finish elapsedMs =>
      intro hret
      obtain hnone | ⟨executed, hexec⟩ := s.execution.eq_none_or_eq_some
      · simp [owed, hnone]
      · have hsome : s.execution.isSome := by simp [hexec]
        apply (streamed_finish_iff texts hsound hret hsome elapsedMs).mp
        simp only [step, hret] at hstr
        apply hstr
        simp [finish, hexec]
  · apply sound_subscribed

def silentTexts : MessageTexts := ⟨fun _ => [], fun _ => []⟩

/-- An event is broadcast, the execution is over, and the event is received before the end is
taken. -/
def drainedRun : List (StreamInput Nat) :=
  [.record 0, .complete (.panicked []), .receive true, .finish 0]

/-- The stream of this run is complete. -/
theorem streamed_drainedRun :
  Machine.Always (step 1 silentTexts) (fun s => s.returned = true → s.Streamed fun _ => true)
    subscribed drainedRun
  := by
  apply (streamed_run_iff 1 silentTexts (fun _ => true) _).mpr
  · simp only [drainedRun, Machine.everyStep_cons]
    refine ⟨trivial, trivial, trivial, ?_, Machine.everyStep_nil⟩
    rintro _ event ⟨⟩
  · simp only [drainedRun, Machine.everyStep_cons]
    exact ⟨trivial, trivial, ⟨rfl, Nat.le_refl 1⟩, trivial, Machine.everyStep_nil⟩

/-- An event is broadcast, the execution is over, and its end is taken first. -/
def undrainedRun : List (StreamInput Nat) := [.record 0, .complete (.panicked []), .finish 0]

/-- The event that was broadcast before the execution was over is not written. -/
theorem not_streamed_undrainedRun :
  Machine.EveryStep (step 1 silentTexts) (Undisturbed 1) subscribed undrainedRun
    ∧ ¬ Machine.Always (step 1 silentTexts) (fun s => s.returned = true → s.Streamed fun _ => true)
      subscribed undrainedRun
  := by
  constructor
  · simp only [undrainedRun, Machine.everyStep_cons]
    exact ⟨trivial, trivial, trivial, Machine.everyStep_nil⟩
  · intro halways
    have hstr := halways undrainedRun [] (List.append_nil _).symm rfl
    have hlen := hstr.complete.length_le
    revert hlen
    decide

end SubmitStream
