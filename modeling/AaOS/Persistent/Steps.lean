import AaOS.Persistent.Loop

/-!
# What a step of the loop does

A step of the loop replaces the beginning of the history in memory by a summary, appends the
messages of an execution, leaves the loop, or changes neither of the histories nor the
archives.  `Change` says what each kind of step does; what holds of every run is derived from it.
-/

namespace PersistentLoop

variable {σ : Type} (loop : PersistentLoop σ)

/-- Neither the histories nor the archives change, and the store is not called. -/
structure SameRecords (s s' : PersistentState) : Prop where
  history : s'.history = s.history
  stored : s'.stored = s.stored
  archives : s'.archives = s.archives
  storeCalls : s'.storeCalls = s.storeCalls

/-- Nothing is archived for a message: nothing was summed up, or the archive failed. -/
structure Unarchived (arrival : Arrival σ) (s s' : PersistentState) : Prop where
  history : s'.history = s.history
  stored : s'.stored = s.stored
  archives : s'.archives = s.archives
  storeCalls : ∃ calls, s'.storeCalls = s.storeCalls ++ calls
    ∧ ∀ call ∈ calls, ∃ sourceRange messages, call = .archiveSegment sourceRange messages
  reason : (loop.contextFor arrival s.history).summarization = none
    ∨ ∃ message, arrival.archive = .error message

/-- What was summed up is archived, and the summary takes its place. -/
structure Archived (arrival : Arrival σ) (summ : SummarizationResult) (s s' : PersistentState) :
    Prop where
  summarization : (loop.contextFor arrival s.history).summarization = some summ
  history : s'.history = summ.summary :: s.history.drop (summ.sourceRange.2 + 1)
  stored : (arrival.replace = .ok () ∧ s'.stored = s'.history)
    ∨ (∃ message, arrival.replace = .error message) ∧ s'.stored = s.stored
  archives : ∃ archivedAt, arrival.archive = .ok archivedAt
    ∧ s'.archives = s.archives ++ [⟨summ.sourceRange, summ.archivedMessages, archivedAt⟩]
  storeCalls : s'.storeCalls = s.storeCalls
    ++ [.archiveSegment summ.sourceRange summ.archivedMessages, .replace s'.history]

/-- The messages of an execution are appended to the histories, of which the one in memory
is cut. -/
structure Extended (append : Except (Nat × Text) Unit) (delta : List Message)
    (s s' : PersistentState) : Prop where
  history : s'.history = loop.trim (s.history ++ delta)
  stored : (append = .ok () ∧ s'.stored = s.stored ++ delta)
    ∨ ∃ written message, append = .error (written, message)
      ∧ s'.stored = s.stored ++ delta.take written
  archives : s'.archives = s.archives
  storeCalls : s'.storeCalls = s.storeCalls ++ [.append delta]

structure Left (clears : Bool) (s s' : PersistentState) : Prop where
  history : s'.history = s.history
  archives : s'.archives = s.archives
  cleared : (loop.clearSessionOnExit = true ∧ s'.storeCalls = s.storeCalls ++ [.clear]
      ∧ s'.stored = if clears then [] else s.stored)
    ∨ (loop.clearSessionOnExit = false ∧ s'.storeCalls = s.storeCalls ∧ s'.stored = s.stored)

/-- The status of the loop while a message is executed. -/
def executing (arrival : Arrival σ) (history : List Message) : LoopStatus :=
  let prepared := loop.contextFor arrival history
  .executing arrival.message.traceId prepared.messages prepared.systemPrompt
    (loop.execute arrival prepared)

/-- What a step of the loop can do. -/
inductive Change (s : PersistentState) : PersistentInput σ → PersistentState → Prop
  | received {arrival s'} :
      s.status = .waiting → s'.status = loop.executing arrival s.history →
      loop.Unarchived arrival s s' → Change s (.message arrival) s'
  | summarized {arrival summ s'} :
      s.status = .waiting → s'.status = loop.executing arrival s.history →
      loop.Archived arrival summ s s' → Change s (.message arrival) s'
  | failed {traceId messagesForLlm promptForLlm result append now message s'} :
      s.status = .executing traceId messagesForLlm promptForLlm (some result) →
      result.stopReason = .error message → s'.status = .waiting → SameRecords s s' →
      Change s (.returned append now) s'
  | finished {traceId messagesForLlm promptForLlm result append now s'} :
      s.status = .executing traceId messagesForLlm promptForLlm (some result) →
      (∀ message, result.stopReason ≠ .error message) → s'.status = .waiting →
      loop.Extended append result.transcriptDelta s s' → Change s (.returned append now) s'
  | closed {clears s'} :
      s.status = .waiting → s'.status = .stopped → loop.Left clears s s' →
      Change s (.messagesClosed clears) s'
  | stopped {command clears s'} :
      s.status = .waiting → s'.status = .stopped → loop.Left clears s s' →
      Change s (.command command clears) s'
  | stoppedPaused {command clears s'} :
      s.status = .paused → (command = some .stop ∨ command = none) → s'.status = .stopped →
      SameRecords s s' → Change s (.command command clears) s'
  | paused {clears s'} :
      s.status = .waiting → s'.status = .paused → SameRecords s s' →
      Change s (.command (some .pause) clears) s'
  | resumed {clears s'} :
      s.status = .paused → s'.status = .waiting → SameRecords s s' →
      Change s (.command (some .resume) clears) s'
  | idle {input s'} :
      s'.status = s.status → SameRecords s s' → Change s input s'

variable {loop}

/-! ### Contexts -/

variable {summ : SummarizationResult}

theorem covers_of_contextFor {arrival : Arrival σ} {history : List Message}
    (hsumm : (loop.contextFor arrival history).summarization = some summ) :
  summ.Covers history
  := by
  unfold contextFor at hsumm
  rcases hman : loop.contextManager with _ | manager
  · rw [hman] at hsumm
    cases hsumm
  · rw [hman] at hsumm
    obtain ⟨hnone, -⟩ | ⟨hsome, hcover, -⟩ :=
      manager.prepares_prepareContext history loop.systemPromptStr arrival.summaryAnswer
    · rw [hnone] at hsumm
      cases hsumm
    · rw [hsome] at hsumm
      cases hsumm
      apply hcover

/-! ### Steps are changes -/

variable {s s₁ s' : PersistentState} {arrival : Arrival σ}

theorem SameRecords.unarchived (hsame : SameRecords s s')
    (hnone : (loop.contextFor arrival s.history).summarization = none) :
  loop.Unarchived arrival s s'
  := by
  constructor
  case history => apply hsame.history
  case stored => apply hsame.stored
  case archives => apply hsame.archives
  case storeCalls => exact ⟨[], by simp [hsame.storeCalls], by simp⟩
  case reason => exact .inl hnone

theorem Unarchived.trans (hunar : loop.Unarchived arrival s s₁) (hsame : SameRecords s₁ s') :
  loop.Unarchived arrival s s'
  := by
  constructor
  case history => apply hsame.history.trans hunar.history
  case stored => apply hsame.stored.trans hunar.stored
  case archives => apply hsame.archives.trans hunar.archives
  case storeCalls =>
    rw [hsame.storeCalls]
    apply hunar.storeCalls
  case reason => apply hunar.reason

theorem Archived.trans (harc : loop.Archived arrival summ s s₁) (hsame : SameRecords s₁ s') :
  loop.Archived arrival summ s s'
  := by
  constructor
  case summarization => apply harc.summarization
  case history => apply hsame.history.trans harc.history
  case stored =>
    rw [hsame.stored, hsame.history]
    apply harc.stored
  case archives =>
    rw [hsame.archives]
    apply harc.archives
  case storeCalls =>
    rw [hsame.storeCalls, hsame.history]
    apply harc.storeCalls

theorem unarchived_applySummarization
    (summ : SummarizationResult) {message : Text} (harc : arrival.archive = .error message) :
  loop.Unarchived arrival s (applySummarization arrival summ s)
  := by
  unfold applySummarization
  rw [harc]
  constructor
  case history => rfl
  case stored => rfl
  case archives => rfl
  case storeCalls =>
    use [.archiveSegment summ.sourceRange summ.archivedMessages], rfl
    intro call hmem
    obtain rfl := List.mem_singleton.mp hmem
    exact ⟨_, _, rfl⟩
  case reason => exact .inr ⟨message, harc⟩

theorem archived_applySummarization (s : PersistentState) {archivedAt : DateTime}
    (hsumm : (loop.contextFor arrival s.history).summarization = some summ)
    (harc : arrival.archive = .ok archivedAt) :
  loop.Archived arrival summ s (applySummarization arrival summ s)
  := by
  unfold applySummarization
  rw [harc]
  rcases hrep : arrival.replace with message | _
  all_goals
    constructor
    case summarization => apply hsumm
    case history => rfl
    case archives => exact ⟨archivedAt, harc, rfl⟩
    case storeCalls => exact List.append_assoc _ _ _
  · exact .inr ⟨⟨message, hrep⟩, rfl⟩
  · exact .inl ⟨hrep, rfl⟩

theorem sameRecords_receive (loop : PersistentLoop σ) (arrival : Arrival σ) (s : PersistentState) :
  SameRecords
    (match (loop.contextFor arrival s.history).summarization with
      | some summ => applySummarization arrival summ s
      | none => s)
    (loop.receive arrival s)
  := by
  simp only [receive, applyPrepared]
  generalize loop.contextFor arrival s.history = prepared
  rcases prepared.summarizationFailure
  all_goals
    rcases prepared.summarization with _ | summ
    · exact ⟨rfl, rfl, rfl, rfl⟩
    · simp only [applySummarization]
      rcases arrival.archive with message | archivedAt
      · exact ⟨rfl, rfl, rfl, rfl⟩
      · rcases arrival.replace <;> exact ⟨rfl, rfl, rfl, rfl⟩

theorem change_receive (arrival : Arrival σ) (hwait : s.status = .waiting) :
  loop.Change s (.message arrival) (loop.receive arrival s)
  := by
  have hsame := loop.sameRecords_receive arrival s
  rcases hsumm : (loop.contextFor arrival s.history).summarization with _ | summ
  · rw [hsumm] at hsame
    apply Change.received hwait rfl
    apply hsame.unarchived hsumm
  · rw [hsumm] at hsame
    rcases harc : arrival.archive with message | archivedAt
    · apply Change.received hwait rfl
      apply (unarchived_applySummarization summ harc).trans hsame
    · apply Change.summarized hwait rfl
      apply (archived_applySummarization s hsumm harc).trans hsame

variable {result : ExecutionResultWithHistory}

theorem extended_finish (loop : PersistentLoop σ) (append : Except (Nat × Text) Unit) (now : Nat)
    (traceId : Uuid) (s : PersistentState) (hok : ∀ message, result.stopReason ≠ .error message) :
  (loop.finish append now traceId result s).status = .waiting
    ∧ loop.Extended append result.transcriptDelta s (loop.finish append now traceId result s)
  := by
  unfold finish
  rcases hreason : result.stopReason with _ | _ | _ | _ | message
  case error => cases hok message hreason
  all_goals
    rcases append with ⟨written, message⟩ | _
    · exact ⟨rfl, rfl, .inr ⟨written, message, rfl, rfl⟩, rfl, rfl⟩
    · exact ⟨rfl, rfl, .inl ⟨rfl, rfl⟩, rfl, rfl⟩

variable {traceId : Uuid} {messagesForLlm : List Message} {promptForLlm : Text}

theorem change_finish (append : Except (Nat × Text) Unit) (now : Nat)
    (hexec : s.status = .executing traceId messagesForLlm promptForLlm (some result)) :
  loop.Change s (.returned append now) (loop.finish append now traceId result s)
  := by
  by_cases hok : ∀ message, result.stopReason ≠ .error message
  · obtain ⟨hstat, hext⟩ := loop.extended_finish append now traceId s hok
    apply Change.finished hexec hok hstat hext
  · push Not at hok
    obtain ⟨message, herror⟩ := hok
    apply Change.failed hexec herror
    · simp only [finish, herror]
      rfl
    · simp only [finish, herror]
      exact ⟨rfl, rfl, rfl, rfl⟩

theorem left_leave (loop : PersistentLoop σ) (clears : Bool) (s : PersistentState) :
  (loop.leave clears s).status = .stopped ∧ loop.Left clears s (loop.leave clears s)
  := by
  unfold leave
  rcases hclear : loop.clearSessionOnExit
  · exact ⟨rfl, rfl, rfl, .inr ⟨hclear, rfl, rfl⟩⟩
  · exact ⟨rfl, rfl, rfl, .inl ⟨hclear, rfl, rfl⟩⟩

theorem change_step (loop : PersistentLoop σ) (s : PersistentState) (input : PersistentInput σ) :
  loop.Change s input (loop.step s input)
  := by
  unfold step
  split
  case h_1 arrival hstat => apply change_receive arrival hstat
  case h_2 clears hstat =>
    obtain ⟨hstop, hleft⟩ := loop.left_leave clears s
    apply Change.closed hstat hstop hleft
  case h_3 command clears hstat =>
    obtain ⟨hstop, hleft⟩ := loop.left_leave clears s
    rcases command with _ | _ | _ | _
    · apply Change.stopped hstat hstop hleft
    · apply Change.stopped hstat hstop hleft
    · exact Change.paused hstat rfl ⟨rfl, rfl, rfl, rfl⟩
    · exact Change.idle rfl ⟨rfl, rfl, rfl, rfl⟩
  case h_4 traceId messagesForLlm promptForLlm result append now hstat =>
    apply change_finish append now hstat
  case h_5 command clears hstat =>
    rcases command with _ | _ | _ | _
    · exact Change.stoppedPaused hstat (.inr rfl) rfl ⟨rfl, rfl, rfl, rfl⟩
    · exact Change.stoppedPaused hstat (.inl rfl) rfl ⟨rfl, rfl, rfl, rfl⟩
    · exact Change.idle rfl ⟨rfl, rfl, rfl, rfl⟩
    · exact Change.resumed hstat rfl ⟨rfl, rfl, rfl, rfl⟩
  · exact Change.idle rfl ⟨rfl, rfl, rfl, rfl⟩

/-! ### Steps of a loop that runs on -/

/-- What a step after which the loop still runs can do to the histories. -/
inductive RunningChange (loop : PersistentLoop σ) (s : PersistentState) :
    PersistentInput σ → PersistentState → Prop
  | received {arrival : Arrival σ} {s' : PersistentState} :
      loop.Unarchived arrival s s' → RunningChange loop s (.message arrival) s'
  | summarized {arrival : Arrival σ} {summ : SummarizationResult} {s' : PersistentState} :
      s.status = .waiting → loop.Archived arrival summ s s' →
      RunningChange loop s (.message arrival) s'
  | finished {traceId : Uuid} {messagesForLlm : List Message} {promptForLlm : Text}
      {result : ExecutionResultWithHistory} {append : Except (Nat × Text) Unit} {now : Nat}
      {s' : PersistentState} :
      s.status = .executing traceId messagesForLlm promptForLlm (some result) →
      loop.Extended append result.transcriptDelta s s' →
      RunningChange loop s (.returned append now) s'
  | kept {input : PersistentInput σ} {s' : PersistentState} :
      SameRecords s s' → RunningChange loop s input s'

theorem running_step (loop : PersistentLoop σ) {input : PersistentInput σ}
    (hrun : (loop.step s input).status ≠ .stopped) :
  s.status ≠ .stopped ∧ loop.RunningChange s input (loop.step s input)
  := by
  have hchan := loop.change_step s input
  generalize loop.step s input = s' at hchan hrun
  cases hchan with
  | received hwait _ hunar => exact ⟨by simp [hwait], .received hunar⟩
  | summarized hwait _ harc => exact ⟨by simp [hwait], .summarized hwait harc⟩
  | failed hexec _ _ hsame => exact ⟨by simp [hexec], .kept hsame⟩
  | finished hexec _ _ hext =>
    exact ⟨by simp [hexec], .finished hexec hext⟩
  | closed _ hstat _ | stopped _ hstat _ | stoppedPaused _ _ hstat _ => contradiction
  | paused hwait _ hsame => exact ⟨by simp [hwait], .kept hsame⟩
  | resumed hpause _ hsame => exact ⟨by simp [hpause], .kept hsame⟩
  | idle hstat hsame =>
    rw [hstat] at hrun
    exact ⟨hrun, .kept hsame⟩

/-! ### Properties of the histories -/

theorem histories_step
    (loop : PersistentLoop σ) (input : PersistentInput σ) {P : List Message → Prop} (hnil : P [])
    (hhis : P s.history) (hstore : P s.stored)
    (hsumm : ∀ arrival summ, (loop.contextFor arrival s.history).summarization = some summ →
      P (summ.summary :: s.history.drop (summ.sourceRange.2 + 1)))
    (hext : ∀ traceId messagesForLlm promptForLlm result append now,
      s.status = .executing traceId messagesForLlm promptForLlm (some result) →
      input = .returned append now → (∀ message, result.stopReason ≠ .error message) →
      P (loop.trim (s.history ++ result.transcriptDelta))
        ∧ ∀ written, P (s.stored ++ result.transcriptDelta.take written)) :
  P (loop.step s input).history ∧ P (loop.step s input).stored
  := by
  have hsame {s' : PersistentState} (hsame : SameRecords s s') : P s'.history ∧ P s'.stored := by
    rw [hsame.history, hsame.stored]
    exact ⟨hhis, hstore⟩
  have hleft {clears : Bool} {s' : PersistentState} (hleft : loop.Left clears s s') :
      P s'.history ∧ P s'.stored := by
    rw [hleft.history]
    constructor
    · apply hhis
    · obtain ⟨-, -, heq⟩ | ⟨-, -, heq⟩ := hleft.cleared
      · rw [heq]
        split_ifs
        · apply hnil
        · apply hstore
      · rw [heq]
        apply hstore
  have hchan := loop.change_step s input
  generalize loop.step s input = s' at hchan
  cases hchan with
  | received _ _ hunar =>
    rw [hunar.history, hunar.stored]
    exact ⟨hhis, hstore⟩
  | summarized _ _ harc =>
    have hsum : P s'.history := by
      rw [harc.history]
      apply hsumm _ _ harc.summarization
    obtain ⟨-, heq⟩ | ⟨-, heq⟩ := harc.stored
    · rw [heq]
      exact ⟨hsum, hsum⟩
    · rw [heq]
      exact ⟨hsum, hstore⟩
  | @finished _ _ _ result _ _ _ hexec hok _ hext' =>
    obtain ⟨htrim, htake⟩ := hext _ _ _ _ _ _ hexec rfl hok
    rw [hext'.history]
    constructor
    · apply htrim
    · obtain ⟨-, heq⟩ | ⟨written, _, -, heq⟩ := hext'.stored
      · rw [heq, ← List.take_length (l := result.transcriptDelta)]
        apply htake
      · rw [heq]
        apply htake
  | closed _ _ h | stopped _ _ h => apply hleft h
  | failed _ _ _ h | stoppedPaused _ _ _ h | paused _ _ h | resumed _ _ h | idle _ h =>
    apply hsame h

/-- A loop that executes after a step has received the message, or did so before. -/
theorem executing_step (loop : PersistentLoop σ) {input : PersistentInput σ}
    {result : Option ExecutionResultWithHistory}
    (hexec : (loop.step s input).status = .executing traceId messagesForLlm promptForLlm result) :
  (∃ arrival, input = .message arrival ∧ s.status = .waiting ∧ loop.executing arrival s.history
      = .executing traceId messagesForLlm promptForLlm result)
    ∨ s.status = .executing traceId messagesForLlm promptForLlm result
      ∧ (loop.step s input).history = s.history
  := by
  have hchan := loop.change_step s input
  generalize loop.step s input = s' at hchan hexec
  cases hchan with
  | received hwait hstat _ | summarized hwait hstat _ =>
    exact .inl ⟨_, rfl, hwait, hstat.symm.trans hexec⟩
  | failed _ _ hstat _ | finished _ _ hstat _ | stoppedPaused _ _ hstat _
  | closed _ hstat _ | stopped _ hstat _ | paused _ hstat _ | resumed _ hstat _ =>
    cases hstat.symm.trans hexec
  | idle hstat hsame => exact .inr ⟨hstat.symm.trans hexec, hsame.history⟩

theorem step_message (loop : PersistentLoop σ) (arrival : Arrival σ) (hwait : s.status = .waiting) :
  loop.step s (.message arrival) = loop.receive arrival s
  := by
  unfold step
  rw [hwait]

theorem step_returned (loop : PersistentLoop σ) (append : Except (Nat × Text) Unit) (now : Nat)
    (hexec : s.status = .executing traceId messagesForLlm promptForLlm (some result)) :
  loop.step s (.returned append now) = loop.finish append now traceId result s
  := by
  unfold step
  rw [hexec]

end PersistentLoop
