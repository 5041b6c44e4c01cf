import AaOS.Persistent.Agreement

/-!
# What is handed to the executor

The context of an execution is prepared before the messages that were summed up are archived.  When
the archive fails, the history stays as it is, but the executor is still handed the context with
the summary: less than what the loop has in memory.
-/

open List Message

/-! ### Summaries in the prompt -/

namespace ContextManager

def leadingTexts (history : List Message) : List Text :=
  (history.takeWhile Message.isSummary).filterMap Message.summaryText

def promptAfter (summaryTexts : List Text) (systemPrompt : Text) : Text :=
  "[Previous conversation summary]\n" ++ ['\n', '\n'].intercalate summaryTexts
    ++ ['\n', '\n'] ++ systemPrompt

variable {history rest : List Message} {systemPrompt text : Text} {n : Nat}

theorem promptAfter_eq_iff {texts texts' : List Text} :
  promptAfter texts systemPrompt = promptAfter texts' systemPrompt
    ↔ ['\n', '\n'].intercalate texts = ['\n', '\n'].intercalate texts'
  := by
  unfold promptAfter
  rw [append_left_inj, append_left_inj, append_right_inj]

theorem systemPrompt_foldSummariesIntoPrompt (history : List Message) (systemPrompt : Text) :
  (foldSummariesIntoPrompt history systemPrompt).systemPrompt
    = if leadingTexts history = [] then systemPrompt
      else promptAfter (leadingTexts history) systemPrompt
  := by
  unfold foldSummariesIntoPrompt leadingTexts
  rw [funext isSome_summaryText]
  dsimp only
  split
  case h_1 hnil => rw [if_pos hnil]
  case h_2 hcons =>
    rw [if_neg hcons]
    rfl

variable {count : UInt32} {range : Nat × Nat}

theorem systemPrompt_foldSummariesIntoPrompt_cons :
  (foldSummariesIntoPrompt (.summary text count range :: rest) systemPrompt).systemPrompt
    = promptAfter (text :: leadingTexts rest) systemPrompt
  := by
  have hcons : leadingTexts (.summary text count range :: rest) = text :: leadingTexts rest := rfl
  rw [systemPrompt_foldSummariesIntoPrompt, hcons, if_neg (cons_ne_nil _ _)]

theorem messages_foldSummariesIntoPrompt_cons :
  (foldSummariesIntoPrompt (.summary text count range :: rest) systemPrompt).messages
    = rest.dropWhile isSummary
  := by
  rw [messages_foldSummariesIntoPrompt, dropWhile_cons_of_pos rfl]

theorem ne_nil_filterMap_summaryText {message : Message} (hmem : message ∈ history)
    (hsum : message.isSummary = true) :
  history.filterMap summaryText ≠ []
  := by
  rw [← message.isSome_summaryText, Option.isSome_iff_exists] at hsum
  obtain ⟨text, htext⟩ := hsum
  apply ne_nil_of_mem (a := text)
  exact mem_filterMap.mpr ⟨message, hmem, htext⟩

theorem leadingTexts_eq_append (hsums : ∀ message ∈ history.take n, message.isSummary = true) :
  leadingTexts history
    = (history.take n).filterMap summaryText ++ leadingTexts (history.drop n)
  := by
  rw [leadingTexts, leadingTexts, ← filterMap_append,
    ← takeWhile_append_of_pos hsums, take_append_drop]

theorem fold_summary_eq_iff (hn : n ≠ 0) (hle : n ≤ history.length) :
  ((foldSummariesIntoPrompt (.summary text count range :: history.drop n) systemPrompt).messages
        = (foldSummariesIntoPrompt history systemPrompt).messages
      ∧ (foldSummariesIntoPrompt (.summary text count range :: history.drop n)
          systemPrompt).systemPrompt
        = (foldSummariesIntoPrompt history systemPrompt).systemPrompt)
    ↔ (∀ message ∈ history.take n, message.isSummary = true)
      ∧ text = ['\n', '\n'].intercalate ((history.take n).filterMap summaryText)
  := by
  have htexts (hsums : ∀ message ∈ history.take n, message.isSummary = true) :
      (history.take n).filterMap summaryText ≠ [] := by
    obtain ⟨message, hmem⟩ : ∃ message, message ∈ history.take n := by
      apply exists_mem_of_ne_nil
      rw [Ne, take_eq_nil_iff]
      rintro (rfl | rfl)
      · contradiction
      · apply hn
        simpa using hle
    apply ne_nil_filterMap_summaryText hmem (hsums message hmem)
  have hprom (hsums : ∀ message ∈ history.take n, message.isSummary = true) :
      (foldSummariesIntoPrompt (.summary text count range :: history.drop n)
          systemPrompt).systemPrompt
        = (foldSummariesIntoPrompt history systemPrompt).systemPrompt
      ↔ text = ['\n', '\n'].intercalate ((history.take n).filterMap summaryText) := by
    have hne : leadingTexts history ≠ [] := by
      rw [leadingTexts_eq_append hsums]
      apply append_ne_nil_of_left_ne_nil (htexts hsums)
    rw [systemPrompt_foldSummariesIntoPrompt_cons, systemPrompt_foldSummariesIntoPrompt,
      if_neg hne, promptAfter_eq_iff, leadingTexts_eq_append hsums,
      Text.intercalate_cons_eq_append_iff (htexts hsums)]
  rw [messages_foldSummariesIntoPrompt_cons, messages_foldSummariesIntoPrompt]
  constructor
  · rintro ⟨hmsgs, hsame⟩
    have hsums := all_take_of_dropWhile_drop_eq hmsgs
    exact ⟨hsums, (hprom hsums).mp hsame⟩
  · rintro ⟨hsums, htext⟩
    constructor
    · rw [← dropWhile_append_of_pos hsums, take_append_drop]
    · apply (hprom hsums).mpr htext

theorem fold_eq_self_iff :
  (history = (foldSummariesIntoPrompt history systemPrompt).messages
      ∧ systemPrompt = (foldSummariesIntoPrompt history systemPrompt).systemPrompt)
    ↔ ¬ (history.head?).any isSummary = true
  := by
  rw [messages_foldSummariesIntoPrompt, systemPrompt_foldSummariesIntoPrompt]
  cases history with
  | nil => simp [leadingTexts]
  | cons message rest =>
    cases hsum : message.isSummary with
    | false => simp [leadingTexts, hsum]
    | true =>
      simp only [head?_cons, Option.any_some, hsum, not_true, iff_false, not_and]
      intro heq
      have hlen := congrArg length heq
      rw [dropWhile_cons_of_pos hsum, length_cons] at hlen
      have hle := (dropWhile_sublist isSummary (l := rest)).length_le
      omega

end ContextManager

/-! ### What the preparation accounts for -/

namespace ContextManager

variable {manager : ContextManager} {history : List Message} {systemPrompt text : Text}
  {answer : LlmResult} {n : Nat}

theorem prepareContext_of_summary
    (hsel : manager.selection history = some n) (hans : summaryOf answer = .ok text) :
  manager.prepareContext history systemPrompt answer
    = { foldSummariesIntoPrompt (.summary text (UInt32.ofNat n) (0, n - 1) :: history.drop n)
          systemPrompt with
        summarization := some
          { archivedMessages := history.take n
            summary := .summary text (UInt32.ofNat n) (0, n - 1)
            sourceRange := (0, n - 1)
            tokensSavedEstimate :=
              UInt32.ofNat ((manager.estimateTokens (history.take n)).toNat
                - (UInt32.ofNat (Text.utf8Len text / 4)).toNat) } }
  := by
  rw [prepareContext_eq, hsel]
  simp only [summarize, hans]

theorem prepareContext_of_no_summary (systemPrompt : Text)
    (hnone : ∀ n text, manager.selection history = some n → summaryOf answer ≠ .ok text) :
  ∃ failure, manager.prepareContext history systemPrompt answer
    = { foldSummariesIntoPrompt history systemPrompt with summarizationFailure := failure }
  := by
  rw [prepareContext_eq]
  rcases hsel : manager.selection history with _ | n
  · exact ⟨none, rfl⟩
  · rcases hans : summaryOf answer with failure | text
    · use some failure
      simp only [summarize, hans]
    · cases hnone n text hsel hans

end ContextManager

theorem PersistentLoop.history_applySummarization
    {σ : Type} {arrival : Arrival σ} {archivedAt : DateTime} (summ : SummarizationResult)
    (state : PersistentState) (harc : arrival.archive = .ok archivedAt) :
  (applySummarization arrival summ state).history
    = summ.summary :: state.history.drop (summ.sourceRange.2 + 1)
  := by
  unfold applySummarization
  rw [harc]
  rcases arrival.replace with message | _ <;> rfl

open ContextManager

/-- When a part of the history is summed up, this part and the rest are the history, and the context
has the rest without leading summaries, and is the one of the history in which the part was
replaced. Otherwise it has the history without leading summaries. -/
theorem prepare_context_conserves_messages (manager : ContextManager) (history : List Message)
    (systemPrompt : Text) (answer : LlmResult) :
  (∀ summ, (manager.prepareContext history systemPrompt answer).summarization = some summ →
    ∃ e text, summ.sourceRange = (0, e) ∧ e < history.length
      ∧ summ.summary.summaryText = some text
      ∧ summ.archivedMessages ++ history.drop (e + 1) = history
      ∧ (manager.prepareContext history systemPrompt answer).messages
        = (history.drop (e + 1)).dropWhile Message.isSummary
      ∧ (manager.prepareContext history systemPrompt answer).systemPrompt
        = promptAfter (text :: leadingTexts (history.drop (e + 1))) systemPrompt
      ∧ ∀ (σ : Type) (arrival : Arrival σ) (state : PersistentState) (archivedAt : DateTime),
        state.history = history → arrival.archive = .ok archivedAt →
        (manager.prepareContext history systemPrompt answer).messages
            = (foldSummariesIntoPrompt
                (PersistentLoop.applySummarization arrival summ state).history
                systemPrompt).messages
          ∧ (manager.prepareContext history systemPrompt answer).systemPrompt
            = (foldSummariesIntoPrompt
                (PersistentLoop.applySummarization arrival summ state).history
                systemPrompt).systemPrompt)
  ∧ ((manager.prepareContext history systemPrompt answer).summarization = none →
      (manager.prepareContext history systemPrompt answer).messages
        = history.dropWhile Message.isSummary)
  := by
  by_cases hsum : ∃ n text, manager.selection history = some n ∧ summaryOf answer = .ok text
  · obtain ⟨n, text, hsel, hans⟩ := hsum
    obtain ⟨hn, hle⟩ := le_of_selection_eq_some hsel
    have hsucc : n - 1 + 1 = n := Nat.sub_add_cancel (Nat.pos_of_ne_zero hn)
    rw [prepareContext_of_summary hsel hans]
    constructor
    · rintro summ ⟨⟩
      use n - 1, text
      rw [hsucc, messages_foldSummariesIntoPrompt_cons, systemPrompt_foldSummariesIntoPrompt_cons]
      refine ⟨rfl, Nat.lt_of_lt_of_le (Nat.sub_one_lt hn) hle, rfl,
        List.take_append_drop n history, rfl, rfl, ?_⟩
      intro σ arrival state archivedAt hhis harc
      rw [PersistentLoop.history_applySummarization _ state harc, hhis, hsucc,
        messages_foldSummariesIntoPrompt_cons, systemPrompt_foldSummariesIntoPrompt_cons]
      exact ⟨rfl, rfl⟩
    · rintro ⟨⟩
  · push Not at hsum
    obtain ⟨failure, heq⟩ := prepareContext_of_no_summary systemPrompt hsum
    rw [heq]
    constructor
    · rintro summ ⟨⟩
    · intro _
      apply messages_foldSummariesIntoPrompt history systemPrompt

/-! ### What the loop hands over -/

namespace PersistentLoop

variable {σ : Type} (loop : PersistentLoop σ)

def HandsHistory (state : PersistentState) : Prop :=
  ∀ traceId messagesForLlm promptForLlm result,
    state.status = .executing traceId messagesForLlm promptForLlm result →
    messagesForLlm = (foldSummariesIntoPrompt state.history loop.systemPromptStr).messages
      ∧ promptForLlm = (foldSummariesIntoPrompt state.history loop.systemPromptStr).systemPrompt

/-- Without a manager the history does not begin with a summary, and a summary that is not archived
is made of summaries and has their texts. -/
def MissesNothing (state : PersistentState) (input : PersistentInput σ) : Prop :=
  ∀ arrival, state.status = .waiting → input = .message arrival →
    match loop.contextManager with
    | none => ¬ (state.history.head?).any Message.isSummary = true
    | some manager => ∀ n text message, manager.selection state.history = some n →
        summaryOf arrival.summaryAnswer = .ok text → arrival.archive = .error message →
        (∀ message ∈ state.history.take n, message.isSummary = true)
          ∧ text = ['\n', '\n'].intercalate
              ((state.history.take n).filterMap Message.summaryText)

variable {loop} {state : PersistentState} {input : PersistentInput σ} {arrival : Arrival σ}

theorem history_receive :
  (loop.receive arrival state).history
    = match (loop.contextFor arrival state.history).summarization, arrival.archive with
      | some summ, .ok _ => summ.summary :: state.history.drop (summ.sourceRange.2 + 1)
      | _, _ => state.history
  := by
  rw [(loop.sameRecords_receive arrival state).history]
  rcases (loop.contextFor arrival state.history).summarization with _ | summ
  · rfl
  · rcases harc : arrival.archive with message | archivedAt
    · simp only [applySummarization, harc]
      rfl
    · rw [history_applySummarization _ _ harc]

theorem handsHistory_iff_of_executing {state' : PersistentState} {history : List Message}
    (hexec : state'.status = loop.executing arrival history) :
  loop.HandsHistory state'
    ↔ (loop.contextFor arrival history).messages
          = (foldSummariesIntoPrompt state'.history loop.systemPromptStr).messages
        ∧ (loop.contextFor arrival history).systemPrompt
          = (foldSummariesIntoPrompt state'.history loop.systemPromptStr).systemPrompt
  := by
  constructor
  · intro hhands
    apply hhands _ _ _ _ hexec
  · intro hsame traceId messagesForLlm promptForLlm result hstat
    rw [hexec] at hstat
    cases hstat
    apply hsame

theorem handsHistory_receive_iff (hwait : state.status = .waiting) :
  loop.HandsHistory (loop.receive arrival state) ↔ loop.MissesNothing state (.message arrival)
  := by
  have hmiss := Iff.intro
    (fun hmiss : loop.MissesNothing state (.message arrival) => hmiss arrival hwait rfl)
    (by
      rintro hmiss _ _ ⟨⟩
      apply hmiss)
  rw [handsHistory_iff_of_executing rfl, history_receive, hmiss]
  unfold contextFor
  rcases loop.contextManager with _ | manager
  · apply fold_eq_self_iff
  · dsimp only
    by_cases hsum : ∃ n text, manager.selection state.history = some n
        ∧ summaryOf arrival.summaryAnswer = .ok text
    · obtain ⟨n, text, hsel, hans⟩ := hsum
      obtain ⟨hn, hle⟩ := le_of_selection_eq_some hsel
      rw [prepareContext_of_summary hsel hans, hsel, hans]
      rcases arrival.archive with message | archivedAt
      · dsimp only
        rw [fold_summary_eq_iff hn hle]
        simp
      · dsimp only
        rw [Nat.sub_add_cancel (Nat.pos_of_ne_zero hn)]
        simp
    · push Not at hsum
      obtain ⟨failure, heq⟩ := prepareContext_of_no_summary loop.systemPromptStr hsum
      rw [heq]
      constructor
      · intro _ n text message hsel hans
        cases hsum n text hsel hans
      · intro _
        exact ⟨rfl, rfl⟩

theorem handsHistory_step (hhands : loop.HandsHistory state)
    (hother : ∀ arrival, state.status = .waiting → input ≠ .message arrival) :
  loop.HandsHistory (loop.step state input)
  := by
  intro traceId messagesForLlm promptForLlm result hstat
  obtain ⟨arrival, hmsg, hwait, -⟩ | ⟨hbef, hhis⟩ := loop.executing_step hstat
  · exact absurd hmsg (hother arrival hwait)
  · rw [hhis]
    apply hhands _ _ _ _ hbef

theorem handsHistory_startLoading (loads : Bool) (stored : List Message) :
  loop.HandsHistory (startLoading loads stored)
  := by
  rintro _ _ _ _ ⟨⟩

/-- The executor is always handed the context of the history in memory exactly when no step makes a
difference between the two. -/
theorem hands_history_run_iff (loop : PersistentLoop σ) (loads : Bool) (stored : List Message)
    (inputs : List (PersistentInput σ)) :
  Machine.Always loop.step loop.HandsHistory (startLoading loads stored) inputs
    ↔ Machine.EveryStep loop.step loop.MissesNothing (startLoading loads stored) inputs
  := by
  apply Machine.always_iff_everyStep (I := loop.HandsHistory)
  · intro state hhands
    apply hhands
  · intro state input hhands hmiss
    by_cases hmsg : ∃ arrival, state.status = .waiting ∧ input = .message arrival
    · obtain ⟨arrival, hwait, rfl⟩ := hmsg
      rw [loop.step_message arrival hwait, handsHistory_receive_iff hwait]
      apply hmiss
    · push Not at hmsg
      apply handsHistory_step hhands hmsg
  · rintro state input hhands hafter arrival hwait rfl
    rw [loop.step_message arrival hwait, handsHistory_receive_iff hwait] at hafter
    apply hafter arrival hwait rfl
  · apply handsHistory_startLoading

def unarchivedArrival : Arrival Unit :=
  { summaryArrival with archive := .error "No space left on device" }

/-- When the archive fails, the history stays, but the executor is handed a context with the first
message summed up. -/
theorem hands_summary_of_unarchived_history :
  (summarizingLoop.run (start [.user "Hello.".toList, .assistant [.text "Hi.".toList]])
      [.message unarchivedArrival]).history
    = [.user "Hello.".toList, .assistant [.text "Hi.".toList]]
  ∧ (∃ result, (summarizingLoop.run
        (start [.user "Hello.".toList, .assistant [.text "Hi.".toList]])
        [.message unarchivedArrival]).status
      = .executing unarchivedArrival.message.traceId [.assistant [.text "Hi.".toList]]
          "[Previous conversation summary]\nSo far.\n\nRead.".toList result)
  ∧ ¬ Machine.Always summarizingLoop.step summarizingLoop.HandsHistory
      (startLoading true [.user "Hello.".toList, .assistant [.text "Hi.".toList]])
      [.message unarchivedArrival]
  := by
  refine ⟨rfl, ⟨_, rfl⟩, ?_⟩
  intro halways
  obtain ⟨hmsgs, -⟩ := halways [.message unarchivedArrival] [] rfl _ _ _ _ rfl
  have hlen := congrArg List.length hmsgs
  contradiction

end PersistentLoop
