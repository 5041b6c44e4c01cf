import AaOS.Executor.Transcript

/-!
# The context of a persistent agent

`aaos-runtime/src/context.rs` keeps the history of an agent within the context of its model: when
it has grown too long, a model sums up the oldest messages, and the summary takes their
place.  What is computed with floating-point numbers is a parameter; so is the size of the text of
a JSON value.
-/

open List Message

/-! ### Messages -/

namespace Message

def isAssistant : Message → Bool
  | .assistant _ => true
  | _ => false

def hasToolUse : Message → Bool
  | .assistant content => (toolUsesOf content).isEmpty = false
  | _ => false

/-- The text of a summary. -/
def summaryText : Message → Option Text
  | .summary content _ _ => some content
  | _ => none

end Message

/-! ### Sizes -/

/-- The manager of the context of an agent. -/
structure ContextManager where
  jsonLen : Json → Nat
  exceedsThreshold : UInt32 → Bool
  targetTokens : UInt32
  summarizationModelMax : UInt32

namespace ContextManager

variable (manager : ContextManager)

def messageChars : Message → Nat
  | .user content => Text.utf8Len content
  | .assistant content =>
    (content.map fun block =>
      match block with
      | .text text => Text.utf8Len text
      | .toolUse _ name input => Text.utf8Len name + manager.jsonLen input).sum
  | .toolResult toolUseId content _ => Text.utf8Len toolUseId + manager.jsonLen content
  | .summary content _ _ => Text.utf8Len content

def estimateTokens (messages : List Message) : UInt32 :=
  UInt32.ofNat ((messages.map manager.messageChars).sum / 4)

def shouldSummarize (messages : List Message) : Bool :=
  manager.exceedsThreshold (manager.estimateTokens messages)

/-! ### Where the history is cut -/

def includeResults (history : List Message) (boundary : Nat) : Nat :=
  boundary + ((history.drop boundary).takeWhile Message.isToolResult).length

def backUp (history : List Message) : Nat → Nat
  | 0 => 0
  | boundary + 1 =>
    if (history[boundary]?).any Message.isAssistant then boundary else backUp history boundary

/-- Move the boundary so that it does not separate calls of tools from their results. -/
def adjustBoundaryForToolPairs (history : List Message) (boundary : Nat) : Nat :=
  if boundary = 0 ∨ history.length < boundary then boundary
  else
    let boundary :=
      if (history[boundary - 1]?).any Message.hasToolUse then includeResults history boundary
      else boundary
    if (history[boundary]?).any Message.isToolResult then backUp history boundary else boundary

/-- The number of messages up to the first one with which the target is reached. -/
def reachTarget (targetTokens : UInt32) : UInt32 → Nat → List Message → Option Nat
  | _, _, [] => none
  | accumulatedTokens, i, msg :: messages =>
    let accumulatedTokens :=
      accumulatedTokens + UInt32.ofNat (manager.messageChars msg / 4)
    if targetTokens ≤ accumulatedTokens then some (i + 1)
    else reachTarget targetTokens accumulatedTokens (i + 1) messages

/-- The number of messages that are summed up. -/
def selectSummarizationBoundary (history : List Message) (targetTokens : UInt32) : Nat :=
  let boundary :=
    match manager.reachTarget targetTokens 0 0 history with
    | some boundary => adjustBoundaryForToolPairs history boundary
    | none => 0
  if boundary = 0 ∧ history.isEmpty = false then
    adjustBoundaryForToolPairs history (history.length / 2)
  else boundary

end ContextManager

/-! ### The context -/

inductive SummarizationFailureKind where
  | llmCallFailed
  | emptyResponse

structure SummarizationFailure where
  kind : SummarizationFailureKind
  message : Text

structure SummarizationResult where
  archivedMessages : List Message
  summary : Message
  sourceRange : Nat × Nat
  tokensSavedEstimate : UInt32

structure PreparedContext where
  messages : List Message
  systemPrompt : Text
  summarization : Option SummarizationResult := none
  summarizationFailure : Option SummarizationFailure := none

namespace ContextManager

/-- Take the summaries at the beginning of the history into the system prompt. -/
def foldSummariesIntoPrompt (history : List Message) (systemPrompt : Text) : PreparedContext where
  messages := history.dropWhile (·.summaryText.isSome)
  systemPrompt :=
    match (history.takeWhile (·.summaryText.isSome)).filterMap Message.summaryText with
    | [] => systemPrompt
    | summaryTexts =>
      "[Previous conversation summary]\n" ++ ['\n', '\n'].intercalate summaryTexts
        ++ ['\n', '\n'] ++ systemPrompt

def summaryOf (answer : LlmResult) : Except SummarizationFailure Text :=
  match answer with
  | .error e => .error ⟨.llmCallFailed, e.text⟩
  | .ok response =>
    let text := ['\n'].intercalate (response.content.filterMap ContentBlock.asText)
    if text = [] then
      .error ⟨.emptyResponse, "summarization LLM returned empty response"⟩
    else .ok text

variable (manager : ContextManager)

/-- The number of messages to sum up, such that they fit into the context of the model. -/
def guardedEnd (history : List Message) (selectionEnd : Nat) : Nat :=
  if manager.summarizationModelMax * 9 / 10
      < manager.estimateTokens (history.take selectionEnd) then
    manager.selectSummarizationBoundary history (manager.summarizationModelMax * 7 / 10)
  else selectionEnd

/-- Sum up the first `n` messages. -/
def summarize (history : List Message) (systemPrompt : Text) (answer : LlmResult) (n : Nat) :
    PreparedContext :=
  match summaryOf answer with
  | .error failure =>
    { foldSummariesIntoPrompt history systemPrompt with summarizationFailure := some failure }
  | .ok summaryText =>
    let summary := .summary summaryText (UInt32.ofNat n) (0, n - 1)
    { foldSummariesIntoPrompt (summary :: history.drop n) systemPrompt with
      summarization := some
        { archivedMessages := history.take n
          summary := summary
          sourceRange := (0, n - 1)
          tokensSavedEstimate :=
            UInt32.ofNat ((manager.estimateTokens (history.take n)).toNat
              - (UInt32.ofNat (Text.utf8Len summaryText / 4)).toNat) } }

/-- Prepare the context for the next execution, with the answer of the model that sums up
the history. -/
def prepareContext (history : List Message) (systemPrompt : Text) (answer : LlmResult) :
    PreparedContext :=
  if manager.shouldSummarize history then
    let selectionEnd := manager.selectSummarizationBoundary history manager.targetTokens
    if selectionEnd = 0 then foldSummariesIntoPrompt history systemPrompt
    else
      let guardedEnd := manager.guardedEnd history selectionEnd
      if guardedEnd = 0 then foldSummariesIntoPrompt history systemPrompt
      else manager.summarize history systemPrompt answer guardedEnd
  else foldSummariesIntoPrompt history systemPrompt

/-- The number of messages that are given to the model that sums them up, if it is called. -/
def selection (history : List Message) : Option Nat :=
  if manager.shouldSummarize history then
    let selectionEnd := manager.selectSummarizationBoundary history manager.targetTokens
    if selectionEnd = 0 then none
    else
      let guardedEnd := manager.guardedEnd history selectionEnd
      if guardedEnd = 0 then none else some guardedEnd
  else none

end ContextManager

/-! ### The request for a summary -/

namespace ContextManager

theorem prepareContext_eq (manager : ContextManager) (history : List Message) (systemPrompt : Text)
    (answer : LlmResult) :
  manager.prepareContext history systemPrompt answer
    = match manager.selection history with
      | none => foldSummariesIntoPrompt history systemPrompt
      | some n => manager.summarize history systemPrompt answer n
  := by
  unfold prepareContext selection
  dsimp only
  split_ifs <;> rfl

theorem guardedEnd_of_selection {manager : ContextManager} {history : List Message} {n : Nat}
    (hsel : manager.selection history = some n) :
  n ≠ 0 ∧ manager.guardedEnd history
    (manager.selectSummarizationBoundary history manager.targetTokens) = n
  := by
  unfold selection at hsel
  dsimp only at hsel
  split_ifs at hsel with _ _ hguard
  cases hsel
  exact ⟨hguard, rfl⟩

end ContextManager

/-! ### Boundaries lie within the history -/

namespace ContextManager

variable {history : List Message}

theorem includeResults_le {boundary : Nat} (hle : boundary ≤ history.length) :
  includeResults history boundary ≤ history.length
  := by
  have htake := (takeWhile_sublist isToolResult (l := history.drop boundary)).length_le
  rw [length_drop] at htake
  unfold includeResults
  omega

theorem backUp_le (history : List Message) (boundary : Nat) :
  backUp history boundary ≤ boundary
  := by
  induction boundary with
  | zero => apply Nat.le_refl
  | succ boundary ih =>
    rw [backUp]
    split_ifs
    · apply Nat.le_succ
    · apply Nat.le_succ_of_le ih

theorem adjustBoundaryForToolPairs_le {boundary : Nat} (hle : boundary ≤ history.length) :
  adjustBoundaryForToolPairs history boundary ≤ history.length
  := by
  have hinc := includeResults_le hle
  unfold adjustBoundaryForToolPairs
  dsimp only
  split_ifs
  · apply hle
  · apply (backUp_le _ _).trans hinc
  · apply hinc
  · apply (backUp_le _ _).trans hle
  · apply hle

theorem reachTarget_le {manager : ContextManager} {targetTokens accumulatedTokens : UInt32}
    {i n : Nat} {messages : List Message}
    (hreach : manager.reachTarget targetTokens accumulatedTokens i messages = some n) :
  n ≤ i + messages.length
  := by
  induction messages generalizing accumulatedTokens i with
  | nil => cases hreach
  | cons msg messages ih =>
    rw [reachTarget] at hreach
    rw [length_cons]
    split_ifs at hreach
    · cases hreach
      omega
    · have hle := ih hreach
      omega

theorem selectSummarizationBoundary_le
    (manager : ContextManager) (history : List Message) (targetTokens : UInt32) :
  manager.selectSummarizationBoundary history targetTokens ≤ history.length
  := by
  unfold selectSummarizationBoundary
  dsimp only
  split_ifs
  · apply adjustBoundaryForToolPairs_le
    omega
  · rcases hreach : manager.reachTarget targetTokens 0 0 history with _ | boundary
    · apply Nat.zero_le
    · apply adjustBoundaryForToolPairs_le
      simpa using reachTarget_le hreach

theorem guardedEnd_le (manager : ContextManager) {selectionEnd : Nat}
    (hle : selectionEnd ≤ history.length) :
  manager.guardedEnd history selectionEnd ≤ history.length
  := by
  unfold guardedEnd
  split_ifs
  · apply selectSummarizationBoundary_le
  · apply hle

theorem le_of_selection_eq_some {manager : ContextManager} {n : Nat}
    (hsel : manager.selection history = some n) :
  n ≠ 0 ∧ n ≤ history.length
  := by
  obtain ⟨hn, rfl⟩ := guardedEnd_of_selection hsel
  constructor
  · apply hn
  · apply manager.guardedEnd_le
    apply manager.selectSummarizationBoundary_le

end ContextManager

/-! ### What is prepared -/

theorem Message.isSome_summaryText (message : Message) :
  message.summaryText.isSome = message.isSummary
  := by
  rcases message with _ | _ | _ | _ <;> rfl

theorem ContextManager.messages_foldSummariesIntoPrompt
    (history : List Message) (systemPrompt : Text) :
  (foldSummariesIntoPrompt history systemPrompt).messages = history.dropWhile isSummary
  := by
  rw [← funext isSome_summaryText]
  rfl

/-- What was summed up is a beginning of the history, and there is a summary for it. -/
structure SummarizationResult.Covers (summ : SummarizationResult) (history : List Message) :
    Prop where
  bounded : summ.sourceRange.2 < history.length
  archivedMessages : summ.archivedMessages = history.take (summ.sourceRange.2 + 1)
  summary : summ.summary.isSummary = true

/-- The summaries at the beginning are left out, after a part of the history was summed up or
without that. -/
inductive PreparedContext.Prepares (history : List Message) (prepared : PreparedContext) : Prop
  | folded :
      prepared.summarization = none → prepared.messages = history.dropWhile Message.isSummary →
      Prepares history prepared
  | summarized {summ} :
      prepared.summarization = some summ → summ.Covers history →
      prepared.messages = (history.drop (summ.sourceRange.2 + 1)).dropWhile Message.isSummary →
      Prepares history prepared

namespace ContextManager

theorem prepares_foldSummariesIntoPrompt (history : List Message) (systemPrompt : Text) :
  (foldSummariesIntoPrompt history systemPrompt).Prepares history
  := by
  apply PreparedContext.Prepares.folded rfl
  apply messages_foldSummariesIntoPrompt

theorem prepares_summarize (manager : ContextManager) {history : List Message} (systemPrompt : Text)
    (answer : LlmResult) {n : Nat} (hn : n ≠ 0) (hle : n ≤ history.length) :
  (manager.summarize history systemPrompt answer n).Prepares history
  := by
  have hsucc : n - 1 + 1 = n := Nat.sub_add_cancel (Nat.pos_of_ne_zero hn)
  unfold summarize
  rcases summaryOf answer with failure | summaryText
  · apply PreparedContext.Prepares.folded rfl
    apply messages_foldSummariesIntoPrompt history systemPrompt
  · apply PreparedContext.Prepares.summarized rfl
    · constructor
      case bounded => apply Nat.lt_of_lt_of_le (Nat.sub_one_lt hn) hle
      case archivedMessages =>
        dsimp only
        rw [hsucc]
      case summary => rfl
    · dsimp only
      rw [hsucc, messages_foldSummariesIntoPrompt]
      rfl

theorem prepares_prepareContext (manager : ContextManager) (history : List Message)
    (systemPrompt : Text) (answer : LlmResult) :
  (manager.prepareContext history systemPrompt answer).Prepares history
  := by
  rw [prepareContext_eq]
  rcases hsel : manager.selection history with _ | n
  · apply prepares_foldSummariesIntoPrompt
  · obtain ⟨hn, hle⟩ := le_of_selection_eq_some hsel
    apply manager.prepares_summarize _ _ hn hle

end ContextManager

/-! ### Well-formed histories -/

theorem Message.not_repliesTo_of_summaryText {message : Message}
    (hsum : message.summaryText.isSome = true) (reply : Message) :
  ¬ reply.RepliesTo message
  := by
  rcases message with _ | _ | _ | _
  · cases hsum
  · cases hsum
  · cases hsum
  · rcases reply with _ | _ | _ | _ <;> apply id

theorem Message.not_isToolResult_of_isAssistant {message : Message}
    (hasst : message.isAssistant = true) :
  ¬ message.isToolResult = true
  := by
  rcases message with _ | _ | _ | _
  · cases hasst
  · simp [isToolResult]
  all_goals cases hasst

namespace WellFormed

variable {history : List Message}

def StartsWell (history : List Message) (boundary : Nat) : Prop :=
  ∀ message, history[boundary]? = some message → ¬ message.isToolResult = true

theorem drop_iff_startsWell (hhis : WellFormed history) (boundary : Nat) :
  WellFormed (history.drop boundary) ↔ StartsWell history boundary
  := by
  rw [WellFormed, Paired.drop_iff hhis, head?_drop]
  rfl

theorem startsWell_zero (hhis : WellFormed history) :
  StartsWell history 0
  := by
  intro message hmsg
  apply hhis.not_isReply_head
  rw [head?_eq_getElem?, hmsg]

theorem not_startsWell_iff {boundary : Nat} :
  ¬ StartsWell history boundary ↔ (history[boundary]?).any isToolResult = true
  := by
  rcases hget : history[boundary]? with _ | message <;> simp [StartsWell, hget]

variable (hhis : WellFormed history)

include hhis

theorem startsWell_backUp (boundary : Nat) :
  StartsWell history (ContextManager.backUp history boundary)
  := by
  induction boundary with
  | zero => apply hhis.startsWell_zero
  | succ boundary ih =>
    rw [ContextManager.backUp]
    split_ifs with hasst
    · intro message hmsg
      rw [hmsg] at hasst
      apply not_isToolResult_of_isAssistant hasst
    · apply ih

theorem startsWell_adjustBoundary (boundary : Nat) :
  StartsWell history (ContextManager.adjustBoundaryForToolPairs history boundary)
  := by
  unfold ContextManager.adjustBoundaryForToolPairs
  by_cases hend : boundary = 0 ∨ history.length < boundary
  · rw [if_pos hend]
    obtain rfl | hlong := hend
    · apply hhis.startsWell_zero
    · intro message hmsg
      rw [getElem?_eq_none (Nat.le_of_lt hlong)] at hmsg
      cases hmsg
  · rw [if_neg hend]
    dsimp only
    generalize (if (history[boundary - 1]?).any hasToolUse = true
      then ContextManager.includeResults history boundary else boundary) = included
    split_ifs with hres
    · apply hhis.startsWell_backUp
    · rwa [← not_startsWell_iff, not_not] at hres

theorem startsWell_selectSummarizationBoundary (manager : ContextManager) (targetTokens : UInt32) :
  StartsWell history (manager.selectSummarizationBoundary history targetTokens)
  := by
  unfold ContextManager.selectSummarizationBoundary
  dsimp only
  split_ifs with hhalf
  · apply hhis.startsWell_adjustBoundary
  · rcases manager.reachTarget targetTokens 0 0 history with _ | boundary
    · apply hhis.startsWell_zero
    · apply hhis.startsWell_adjustBoundary

theorem startsWell_guardedEnd (manager : ContextManager) {selectionEnd : Nat}
    (hsel : StartsWell history selectionEnd) :
  StartsWell history (manager.guardedEnd history selectionEnd)
  := by
  unfold ContextManager.guardedEnd
  split_ifs
  · apply hhis.startsWell_selectSummarizationBoundary
  · apply hsel

theorem foldSummaries (systemPrompt : Text) :
  WellFormed (ContextManager.foldSummariesIntoPrompt history systemPrompt).messages
  := by
  apply Paired.dropWhile hhis
  intro message hsum
  apply not_repliesTo_of_summaryText hsum

theorem summary_cons (content : Text) (messagesSummarized : UInt32) (sourceRange : Nat × Nat) :
  WellFormed (.summary content messagesSummarized sourceRange :: history)
  := by
  apply Paired.append (l := [.summary content messagesSummarized sourceRange]) _ hhis
  apply Paired.singleton
  simp [isToolResult]

/-- A prepared context is well-formed; what was summed up is a part of the history, which is
well-formed with the summary in its place. -/
structure Prepared (history : List Message) (prepared : PreparedContext) : Prop where
  messages : WellFormed prepared.messages
  bounded : ∀ summarization, prepared.summarization = some summarization →
    summarization.sourceRange.2 < history.length
  summarized : ∀ summarization, prepared.summarization = some summarization →
    WellFormed (summarization.summary :: history.drop (summarization.sourceRange.2 + 1))

theorem prepared_foldSummaries (systemPrompt : Text) :
  Prepared history (ContextManager.foldSummariesIntoPrompt history systemPrompt)
  := by
  constructor
  case messages => apply hhis.foldSummaries
  case bounded => rintro summarization ⟨⟩
  case summarized => rintro summarization ⟨⟩

theorem prepared_summarize (manager : ContextManager) (systemPrompt : Text) (answer : LlmResult)
    {n : Nat} (hn : n ≠ 0) (hle : n ≤ history.length) (hstart : StartsWell history n) :
  Prepared history (manager.summarize history systemPrompt answer n)
  := by
  have hdrop : WellFormed (history.drop n) := (hhis.drop_iff_startsWell n).mpr hstart
  unfold ContextManager.summarize
  rcases ContextManager.summaryOf answer with failure | summaryText
  · constructor
    case messages => apply hhis.foldSummaries systemPrompt
    case bounded => rintro summarization ⟨⟩
    case summarized => rintro summarization ⟨⟩
  · constructor
    case messages =>
      have hcons : WellFormed (.summary summaryText (UInt32.ofNat n) (0, n - 1) :: history.drop n)
        := hdrop.summary_cons _ _ _
      apply hcons.foldSummaries systemPrompt
    case bounded =>
      rintro summarization ⟨⟩
      apply Nat.lt_of_lt_of_le (Nat.sub_one_lt hn) hle
    case summarized =>
      rintro summarization ⟨⟩
      dsimp only
      rw [Nat.sub_add_cancel (Nat.pos_of_ne_zero hn)]
      apply hdrop.summary_cons

theorem prepareContext (manager : ContextManager) (systemPrompt : Text) (answer : LlmResult) :
  Prepared history (manager.prepareContext history systemPrompt answer)
  := by
  rw [ContextManager.prepareContext_eq]
  rcases hsel : manager.selection history with _ | n
  · apply hhis.prepared_foldSummaries
  · obtain ⟨hn, hle⟩ := ContextManager.le_of_selection_eq_some hsel
    apply hhis.prepared_summarize _ _ _ hn hle
    obtain ⟨-, rfl⟩ := ContextManager.guardedEnd_of_selection hsel
    apply hhis.startsWell_guardedEnd
    apply hhis.startsWell_selectSummarizationBoundary

end WellFormed
