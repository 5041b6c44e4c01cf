import AaOS.Persistent.Agreement

/-!
# Reports of errors of the session store

The loop of a persistent agent reports at most one error of the store in a minute.  When messages
are archived or appended, the time is noted after the operation has failed; when the history is
replaced, it is noted before, whether the operation then fails or not.  So an error may be kept
back although none was reported.
-/

open List Option PersistentState

/-! ### Events -/

def PersistentEvent.storeFailure : PersistentEvent → Option (Text × Text)
  | .sessionStoreError operation message => some (operation, message)
  | _ => none

namespace PersistentState

variable (state : PersistentState)

/-- The errors of the store that were reported. -/
def storeFailures : List (Text × Text) := state.events.filterMap PersistentEvent.storeFailure

@[simp] theorem storeFailures_record (events : List PersistentEvent) :
  (state.record events).storeFailures
    = state.storeFailures ++ events.filterMap PersistentEvent.storeFailure
  := filterMap_append

@[simp] theorem storeFailures_noteError (now : Nat) :
  (state.noteError now).storeFailures = state.storeFailures := rfl

/-- The noted time and the reports when an operation is checked that may have failed. -/
structure Throttled (now : Nat) (failure : Option (Text × Text)) (state' : PersistentState) :
    Prop where
  lastSessionStoreError : state'.lastSessionStoreError
    = if state.shouldEmit now then some now else state.lastSessionStoreError
  storeFailures : state'.storeFailures
    = state.storeFailures ++ if state.shouldEmit now then failure.toList else []

/-- Neither the time that was noted nor the reports change. -/
structure Unthrottled (state' : PersistentState) : Prop where
  lastSessionStoreError : state'.lastSessionStoreError = state.lastSessionStoreError
  storeFailures : state'.storeFailures = state.storeFailures

variable {state} {state₁ state' : PersistentState} {now : Nat} {failure : Option (Text × Text)}

theorem Unthrottled.trans (hbef : state.Unthrottled state₁) (hafter : state₁.Unthrottled state') :
  state.Unthrottled state'
  := by
  constructor
  case lastSessionStoreError =>
    rw [hafter.lastSessionStoreError, hbef.lastSessionStoreError]
  case storeFailures => rw [hafter.storeFailures, hbef.storeFailures]

theorem Throttled.trans (hthr : state.Throttled now failure state₁)
    (hafter : state₁.Unthrottled state') :
  state.Throttled now failure state'
  := by
  constructor
  case lastSessionStoreError =>
    rw [hafter.lastSessionStoreError, hthr.lastSessionStoreError]
  case storeFailures => rw [hafter.storeFailures, hthr.storeFailures]

theorem Unthrottled.throttled (hbef : state.Unthrottled state₁)
    (hthr : state₁.Throttled now failure state') :
  state.Throttled now failure state'
  := by
  have hemit : state₁.shouldEmit now = state.shouldEmit now := by
    rw [shouldEmit, hbef.lastSessionStoreError, shouldEmit]
  constructor
  case lastSessionStoreError =>
    rw [hthr.lastSessionStoreError, hbef.lastSessionStoreError, hemit]
  case storeFailures => rw [hthr.storeFailures, hbef.storeFailures, hemit]

theorem unthrottled_record {events : List PersistentEvent}
    (hnone : events.filterMap PersistentEvent.storeFailure = []) :
  state.Unthrottled (state.record events)
  := by
  constructor
  case lastSessionStoreError => rfl
  case storeFailures => rw [storeFailures_record, hnone, append_nil]

theorem throttled_storeError (operation message : Text) (now : Nat) :
  state.Throttled now (some (operation, message)) (state.storeError operation message now)
  := by
  constructor
  case lastSessionStoreError => rfl
  case storeFailures =>
    rw [storeError, storeFailures_record, storeFailures_noteError]
    split_ifs <;> rfl

theorem throttled_noteError (now : Nat) : state.Throttled now none (state.noteError now) := by
  constructor
  case lastSessionStoreError => rfl
  case storeFailures =>
    rw [storeFailures_noteError]
    split_ifs <;> simp

end PersistentState

/-! ### Operations on the store -/

/-- An operation of the store that failed. -/
structure StoreFailure where
  operation : Text
  message : Text
  failedAt : Nat

/-- A failure as it is reported. -/
def StoreFailure.reported (failure : StoreFailure) : Text × Text :=
  (failure.operation, failure.message)

structure StoreUse where
  checkedAt : Nat
  failure : Option StoreFailure

/-- An input of the loop, with the time at which the history has been replaced for it. -/
structure TimedInput (σ : Type) where
  input : PersistentInput σ
  replacedAt : Nat

namespace PersistentLoop

variable {σ : Type} (loop : PersistentLoop σ)

def summaryUse (arrival : Arrival σ) (replacedAt : Nat) : StoreUse where
  checkedAt := arrival.now
  failure :=
    match arrival.archive, arrival.replace with
    | .error message, _ => some ⟨"archive", message, arrival.now⟩
    | .ok _, .error message => some ⟨"replace", message, replacedAt⟩
    | .ok _, .ok () => none

/-- The operation on the store for which a step checks the throttle. -/
def storeUse (state : PersistentState) (timed : TimedInput σ) : Option StoreUse :=
  match state.status, timed.input with
  | .waiting, .message arrival =>
    (loop.contextFor arrival state.history).summarization.map fun _ =>
      summaryUse arrival timed.replacedAt
  | .executing _ _ _ (some result), .returned (.error (_, message)) now =>
    match result.stopReason with
    | .error _ => none
    | _ => some ⟨now, some ⟨"append", message, now⟩⟩
  | _, _ => none

variable {loop} {state : PersistentState} {timed : TimedInput σ} {use : StoreUse}

theorem throttled_applySummarization (arrival : Arrival σ) (replacedAt : Nat)
    (summ : SummarizationResult) (state : PersistentState) :
  state.Throttled arrival.now
    ((summaryUse arrival replacedAt).failure.map StoreFailure.reported)
    (applySummarization arrival summ state)
  := by
  unfold applySummarization summaryUse
  have hcall : state.Unthrottled
      (state.call (.archiveSegment summ.sourceRange summ.archivedMessages)) := ⟨rfl, rfl⟩
  apply hcall.throttled
  generalize state.call (.archiveSegment summ.sourceRange summ.archivedMessages) = called
  rcases arrival.archive with message | archivedAt
  · apply throttled_storeError
  · dsimp only
    generalize summ.summary :: called.history.drop (summ.sourceRange.2 + 1) = history
    generalize called.archives ++ [_] = archives
    have hrep : called.Unthrottled
        ({ called with archives := archives, history := history }.call (.replace history)) :=
      ⟨rfl, rfl⟩
    apply PersistentState.Throttled.trans _ (unthrottled_record rfl)
    apply hrep.throttled
    generalize call _ (.replace history) = replaced
    rcases arrival.replace with message | _
    · apply throttled_storeError
    · apply (replaced.throttled_noteError arrival.now).trans
      exact ⟨rfl, rfl⟩

theorem unthrottled_applyPrepared
    (arrival : Arrival σ) (prepared : PreparedContext) (state : PersistentState) :
  (match prepared.summarization with
    | some summ => applySummarization arrival summ state
    | none => state).Unthrottled (applyPrepared arrival prepared state)
  := by
  unfold applyPrepared
  rcases prepared.summarizationFailure with _ | failure
  · exact ⟨rfl, rfl⟩
  · apply unthrottled_record rfl

variable (loop : PersistentLoop σ)

/-- A message for which nothing is summed up leaves the throttle alone; otherwise it is checked
once. -/
theorem throttled_receive (arrival : Arrival σ) (replacedAt : Nat) (state : PersistentState) :
  match (loop.contextFor arrival state.history).summarization with
  | none => state.Unthrottled (loop.receive arrival state)
  | some _ => state.Throttled arrival.now
      ((summaryUse arrival replacedAt).failure.map StoreFailure.reported)
      (loop.receive arrival state)
  := by
  have hrec : state.Unthrottled
      (state.record [.agentMessageReceived arrival.message.traceId arrival.message.method]) :=
    unthrottled_record rfl
  have hprep := unthrottled_applyPrepared arrival (loop.contextFor arrival state.history)
    (state.record [.agentMessageReceived arrival.message.traceId arrival.message.method])
  have hstat : (applyPrepared arrival (loop.contextFor arrival state.history)
      (state.record [.agentMessageReceived arrival.message.traceId
        arrival.message.method])).Unthrottled (loop.receive arrival state) := ⟨rfl, rfl⟩
  rcases hsumm : (loop.contextFor arrival state.history).summarization with _ | summ
  · rw [hsumm] at hprep
    apply hrec.trans (hprep.trans hstat)
  · rw [hsumm] at hprep
    apply hrec.throttled
    apply (throttled_applySummarization arrival replacedAt summ _).trans
    apply hprep.trans hstat

variable {result : ExecutionResultWithHistory}

theorem throttled_finish (written : Nat) (message : Text) (now : Nat) (traceId : Uuid)
    (state : PersistentState) (hok : ∀ message, result.stopReason ≠ .error message) :
  state.Throttled now (some ("append", message))
    (loop.finish (.error (written, message)) now traceId result state)
  := by
  unfold finish
  split
  case h_1 message herror => cases hok message herror
  case h_2 =>
    apply PersistentState.Throttled.trans _ (unthrottled_record rfl)
    apply PersistentState.Unthrottled.throttled _ (throttled_storeError _ _ _)
    exact ⟨rfl, rfl⟩

theorem unthrottled_finish {append : Except (Nat × Text) Unit} (now : Nat) (traceId : Uuid)
    (state : PersistentState)
    (hok : append = .ok () ∨ ∃ message, result.stopReason = .error message) :
  state.Unthrottled (loop.finish append now traceId result state)
  := by
  unfold finish
  split
  case h_1 => exact ⟨rfl, storeFailures_record _ _ |>.trans (append_nil _)⟩
  case h_2 hnot =>
    obtain rfl | ⟨message, herror⟩ := hok
    · apply PersistentState.Unthrottled.trans _ (unthrottled_record rfl)
      exact ⟨rfl, rfl⟩
    · cases hnot message herror

theorem unthrottled_leave (clears : Bool) (state : PersistentState) :
  state.Unthrottled (loop.leave clears state)
  := by
  unfold leave
  have hrec : state.Unthrottled ({ state with status := .stopped }.record
      [.agentLoopStopped "normal" state.messagesProcessed]) := by
    apply PersistentState.Unthrottled.trans _ (unthrottled_record rfl)
    exact ⟨rfl, rfl⟩
  rcases loop.clearSessionOnExit
  · exact hrec
  · exact hrec.trans ⟨rfl, rfl⟩

theorem unthrottled_command (command : Option AgentCommand) (clears : Bool)
    (state : PersistentState) :
  state.Unthrottled (loop.obey command clears state)
    ∧ state.Unthrottled (obeyPaused command state)
  := by
  have hstop : state.Unthrottled ({ state with status := .stopped }.record
      [.agentLoopStopped "stopped_while_paused" state.messagesProcessed]) := by
    apply PersistentState.Unthrottled.trans _ (unthrottled_record rfl)
    exact ⟨rfl, rfl⟩
  rcases command with _ | _ | _ | _
  · exact ⟨loop.unthrottled_leave clears state, hstop⟩
  · exact ⟨loop.unthrottled_leave clears state, hstop⟩
  all_goals exact ⟨⟨rfl, rfl⟩, ⟨rfl, rfl⟩⟩

theorem throttled_step (hstore : loop.storeUse state timed = some use) :
  state.Throttled use.checkedAt (use.failure.map StoreFailure.reported)
    (loop.step state timed.input)
  := by
  unfold storeUse at hstore
  split at hstore
  case h_1 arrival hwait hinput =>
    have hrec := loop.throttled_receive arrival timed.replacedAt state
    rw [map_eq_some_iff] at hstore
    obtain ⟨summ, hsumm, rfl⟩ := hstore
    rw [hsumm] at hrec
    rw [hinput, loop.step_message arrival hwait]
    apply hrec
  case h_2 result written message now hexec hinput =>
    rw [hinput, loop.step_returned _ now hexec]
    split at hstore
    case h_1 => cases hstore
    case h_2 hok =>
      cases hstore
      apply loop.throttled_finish written message now _ state hok
  case h_3 => cases hstore

theorem unthrottled_step (hnone : loop.storeUse state timed = none) :
  state.Unthrottled (loop.step state timed.input)
  := by
  unfold step
  split
  case h_1 arrival hwait hinput =>
    have hrec := loop.throttled_receive arrival timed.replacedAt state
    simp only [storeUse, hwait, hinput, map_eq_none_iff] at hnone
    rw [hnone] at hrec
    apply hrec
  case h_2 clears _ _ => apply loop.unthrottled_leave
  case h_3 command clears _ _ => apply (loop.unthrottled_command command clears state).1
  case h_4 result append now hexec hinput =>
    apply loop.unthrottled_finish
    rcases append with ⟨written, message⟩ | _
    · right
      simp only [storeUse, hexec, hinput] at hnone
      split at hnone
      case h_1 message herror => exact ⟨message, herror⟩
      case h_2 => cases hnone
    · exact .inl rfl
  case h_5 command clears _ _ => apply (loop.unthrottled_command command clears state).2
  case h_6 => exact ⟨rfl, rfl⟩

/-! ### Watched runs -/

/-- A state of the loop, with the operations on the store that have armed the throttle. -/
structure Watched where
  state : PersistentState
  armings : List StoreUse := []

/-- The failures of the store that were reported, with their times. -/
def Watched.reports (watched : Watched) : List StoreFailure :=
  watched.armings.filterMap StoreUse.failure

/-- A step of the loop; an operation that passes the throttle arms it. -/
def watch (loop : PersistentLoop σ) (watched : Watched) (timed : TimedInput σ) : Watched where
  state := loop.step watched.state timed.input
  armings :=
    watched.armings
      ++ (loop.storeUse watched.state timed).toList.filter
        (watched.state.shouldEmit ·.checkedAt)

/-- The step reports a failure of the store, if none was reported in the interval before it. -/
def ReportsFailure (loop : PersistentLoop σ) (watched : Watched) (timed : TimedInput σ) : Prop :=
  ∀ use failure, loop.storeUse watched.state timed = some use → use.failure = some failure →
    (∀ report ∈ watched.reports,
      sessionStoreErrorThrottle ≤ failure.failedAt - report.failedAt) →
    (loop.watch watched timed).state.storeFailures
      = watched.state.storeFailures ++ [failure.reported]

/-- When the store fails in a step, and another operation has armed the throttle in the interval
before the check, a failure was reported in the interval before it failed. -/
def ArmedByFailure (loop : PersistentLoop σ) (watched : Watched) (timed : TimedInput σ) : Prop :=
  ∀ use failure, loop.storeUse watched.state timed = some use → use.failure = some failure →
    ∀ arming ∈ watched.armings, use.checkedAt - arming.checkedAt < sessionStoreErrorThrottle →
      ∃ report ∈ watched.reports, failure.failedAt - report.failedAt < sessionStoreErrorThrottle

/-- The throttle knows the last operation that armed it, and such operations are reported. -/
structure Watched.Faithful (watched : Watched) : Prop where
  last : watched.state.lastSessionStoreError
    = watched.armings.getLast?.map StoreUse.checkedAt
  sorted : watched.armings.Pairwise (·.checkedAt ≤ ·.checkedAt)
  reports : watched.state.storeFailures = watched.reports.map StoreFailure.reported

variable {watched : Watched}

theorem Watched.Faithful.shouldEmit_iff (hfaith : watched.Faithful) (now : Nat) :
  watched.state.shouldEmit now = true
    ↔ ∀ arming ∈ watched.armings, sessionStoreErrorThrottle ≤ now - arming.checkedAt
  := by
  have hsor := hfaith.sorted
  rw [shouldEmit, hfaith.last]
  obtain hnil | ⟨before, last, hcon⟩ := eq_nil_or_concat watched.armings
  · simp [hnil]
  · rw [concat_eq_append] at hcon
    rw [hcon, pairwise_append] at hsor
    rw [hcon, getLast?_concat]
    simp only [map_some, decide_eq_true_eq, mem_append, mem_singleton]
    constructor
    · rintro hlast arming (hmem | rfl)
      · have hle := hsor.2.2 arming hmem last (mem_singleton_self last)
        omega
      · apply hlast
    · intro hall
      apply hall last (.inr rfl)

theorem faithful_watch (timed : TimedInput σ) (hfaith : watched.Faithful) :
  (loop.watch watched timed).Faithful
  := by
  have hkept {state' : PersistentState} (hsame : watched.state.Unthrottled state') :
      Watched.Faithful ⟨state', watched.armings⟩ := by
    constructor
    case last => exact hsame.lastSessionStoreError.trans hfaith.last
    case sorted => exact hfaith.sorted
    case reports => exact hsame.storeFailures.trans hfaith.reports
  unfold watch
  rcases hstore : loop.storeUse watched.state timed with _ | use
  · have hsame := hkept (loop.unthrottled_step hstore)
    simpa using hsame
  · have hthr := loop.throttled_step hstore
    by_cases hemit : watched.state.shouldEmit use.checkedAt = true
    · have hall := (hfaith.shouldEmit_iff use.checkedAt).mp hemit
      rw [toList_some, filter_cons_of_pos (a := use) hemit, filter_nil]
      constructor
      case last =>
        rw [hthr.lastSessionStoreError, if_pos hemit, getLast?_concat]
        rfl
      case sorted =>
        rw [pairwise_append]
        refine ⟨hfaith.sorted, pairwise_singleton _ _, ?_⟩
        intro arming hmem use' hmem'
        obtain rfl := mem_singleton.mp hmem'
        have hint := hall arming hmem
        unfold sessionStoreErrorThrottle at hint
        omega
      case reports =>
        rw [hthr.storeFailures, if_pos hemit, hfaith.reports, Watched.reports,
          Watched.reports, filterMap_append, map_append]
        rcases hfail : use.failure with _ | failure
        all_goals simp [hfail]
    · rw [toList_some, filter_cons_of_neg (a := use) hemit, filter_nil, append_nil]
      apply hkept
      constructor
      case lastSessionStoreError => rw [hthr.lastSessionStoreError, if_neg hemit]
      case storeFailures => rw [hthr.storeFailures, if_neg hemit, append_nil]

theorem reportsFailure_iff (timed : TimedInput σ) (hfaith : watched.Faithful) :
  loop.ReportsFailure watched timed ↔ loop.ArmedByFailure watched timed
  := by
  constructor
  · intro hreport use failure hstore hfail arming hmem hint
    by_contra hnone
    push Not at hnone
    have hrep := hreport use failure hstore hfail hnone
    have hemit : ¬ watched.state.shouldEmit use.checkedAt = true := by
      rw [hfaith.shouldEmit_iff]
      intro hall
      have hlate := hall arming hmem
      omega
    have hthr := (loop.throttled_step hstore).storeFailures
    rw [if_neg hemit, append_nil] at hthr
    rw [watch, hthr] at hrep
    simp at hrep
  · intro harmed use failure hstore hfail hnone
    have hemit : watched.state.shouldEmit use.checkedAt = true := by
      rw [hfaith.shouldEmit_iff]
      intro arming hmem
      by_contra hint
      obtain ⟨report, hrepor, hrec⟩ :=
        harmed use failure hstore hfail arming hmem (Nat.lt_of_not_le hint)
      have hlate := hnone report hrepor
      omega
    rw [watch, (loop.throttled_step hstore).storeFailures, if_pos hemit, hfail]
    rfl

/-- In a run, every failure of the store is reported when none was reported in the interval before
it, exactly when the throttle is armed by failures; and the reports are the recorded events. -/
theorem reports_failure_run_iff (loop : PersistentLoop σ) (loads : Bool) (stored : List Message)
    (timed : List (TimedInput σ)) :
  (Machine.EveryStep loop.watch loop.ReportsFailure ⟨startLoading loads stored, []⟩ timed
      ↔ Machine.EveryStep loop.watch loop.ArmedByFailure ⟨startLoading loads stored, []⟩ timed)
    ∧ (Machine.after loop.watch ⟨startLoading loads stored, []⟩ timed).state.storeFailures
      = (Machine.after loop.watch ⟨startLoading loads stored, []⟩ timed).reports.map
          StoreFailure.reported
  := by
  have hfaith (timed : List (TimedInput σ)) :
      (Machine.after loop.watch ⟨startLoading loads stored, []⟩ timed).Faithful := by
    apply Machine.invariant_after (I := Watched.Faithful)
    · intro watched timed hfaith
      apply loop.faithful_watch timed hfaith
    · exact ⟨rfl, List.Pairwise.nil, rfl⟩
  constructor
  · constructor
    · intro hevery before step rest heq
      rw [← loop.reportsFailure_iff step (hfaith before)]
      apply hevery before step rest heq
    · intro hevery before step rest heq
      rw [loop.reportsFailure_iff step (hfaith before)]
      apply hevery before step rest heq
  · apply (hfaith timed).reports

def unappended : TimedInput Unit :=
  ⟨.returned (.error (0, "No space left on device")) 1000, 1000⟩

def afterReplacing : Watched :=
  Machine.after summarizingLoop.watch ⟨startLoading true [.user "Hello."], []⟩
    [⟨.message summaryArrival, 0⟩]

/-- A second after the history was replaced, messages cannot be appended, and no error is reported,
as none was before. -/
theorem store_failure_is_silenced :
  summarizingLoop.storeUse afterReplacing.state unappended
    = some ⟨1000, some ⟨"append".toList, "No space left on device".toList, 1000⟩⟩
  ∧ afterReplacing.reports = []
  ∧ (summarizingLoop.watch afterReplacing unappended).state.storeFailures = []
  ∧ ¬ Machine.EveryStep summarizingLoop.watch summarizingLoop.ReportsFailure
      ⟨startLoading true [.user "Hello.".toList], []⟩
      [⟨.message summaryArrival, 0⟩, unappended]
  := by
  have hnone : afterReplacing.reports = [] := rfl
  refine ⟨rfl, hnone, rfl, ?_⟩
  intro hevery
  have hrep : summarizingLoop.ReportsFailure afterReplacing unappended :=
    hevery [⟨.message summaryArrival, 0⟩] unappended [] rfl
  have hevent := hrep _ _ rfl rfl (by simp [hnone])
  cases congrArg List.length hevent

end PersistentLoop
