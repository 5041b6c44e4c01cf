import AaOS.Lib.Machine
import AaOS.Persistent.Steps

/-!
# The history of a persistent agent

The history of a persistent agent stays well-formed when it is summed up or extended.  When it is
cut down to its limit, the cut can fall between calls and their results; the histories of a run are
well-formed exactly when no cut does.
-/

namespace PersistentState

structure WellKept (state : PersistentState) : Prop where
  history : WellFormed state.history
  stored : WellFormed state.stored

/-- The histories that are kept are well-formed, and so are the messages handed to the executor. -/
structure Kept (state : PersistentState) : Prop extends state.WellKept where
  handed : ∀ traceId messagesForLlm promptForLlm result,
    state.status = .executing traceId messagesForLlm promptForLlm result →
    WellFormed messagesForLlm

/-- The messages that the executor returns are well-formed. -/
def Returns (state : PersistentState) : Prop :=
  ∀ traceId messagesForLlm promptForLlm result,
    state.status = .executing traceId messagesForLlm promptForLlm (some result) →
    WellFormed result.transcriptDelta

variable {state : PersistentState}

theorem WellKept.kept (hkept : state.WellKept)
    (hidle : ∀ traceId messagesForLlm promptForLlm result,
      state.status ≠ .executing traceId messagesForLlm promptForLlm result) :
  state.Kept ∧ state.Returns
  := by
  constructor
  · constructor
    case toWellKept => apply hkept
    case handed =>
      intro traceId messagesForLlm promptForLlm result hexec
      cases hidle _ _ _ _ hexec
  · intro traceId messagesForLlm promptForLlm result hexec
    cases hidle _ _ _ _ hexec

end PersistentState

namespace PersistentLoop

variable {σ : Type} {loop : PersistentLoop σ} {state : PersistentState}

open PersistentState

/-! ### Preparing the context -/

theorem prepared_contextFor (loop : PersistentLoop σ) (arrival : Arrival σ) {history : List Message}
    (hhis : WellFormed history) :
  WellFormed.Prepared history (loop.contextFor arrival history)
  := by
  unfold contextFor
  rcases loop.contextManager with _ | manager
  · constructor
    case messages => apply hhis
    case bounded => rintro summarization ⟨⟩
    case summarized => rintro summarization ⟨⟩
  · apply hhis.prepareContext

/-! ### Taking up the result of an execution -/

def cut (loop : PersistentLoop σ) (history : List Message) : Nat :=
  history.length - loop.maxHistory

theorem trim_eq_drop (loop : PersistentLoop σ) (history : List Message) :
  loop.trim history = history.drop (loop.cut history)
  := by
  unfold trim
  split_ifs with hlong
  · rfl
  · have hzero : loop.cut history = 0 := Nat.sub_eq_zero_of_le (Nat.le_of_not_lt hlong)
    rw [hzero, List.drop_zero]

/-- When the executor returns and does not fail, the history is not cut at a result of a tool. -/
def CutsWell (loop : PersistentLoop σ) (state : PersistentState) (input : PersistentInput σ) :
    Prop :=
  ∀ traceId messagesForLlm promptForLlm result append now,
    state.status = .executing traceId messagesForLlm promptForLlm (some result) →
    input = .returned append now →
    (∀ message, result.stopReason ≠ .error message) →
    WellFormed.StartsWell (state.history ++ result.transcriptDelta)
      (loop.cut (state.history ++ result.transcriptDelta))

/-! ### Runs -/

theorem kept_step {input : PersistentInput σ} (hkept : state.Kept) (hret : state.Returns)
    (hcut : loop.CutsWell state input) :
  (loop.step state input).Kept ∧ (loop.step state input).Returns
  := by
  have hhis : WellFormed (loop.step state input).history
      ∧ WellFormed (loop.step state input).stored := by
    apply loop.histories_step input Paired.nil hkept.history hkept.stored
    · intro arrival summ hsumm
      apply (loop.prepared_contextFor arrival hkept.history).summarized summ hsumm
    · intro _ _ _ result _ _ hexec hinput hok
      have hdelta := hret _ _ _ _ hexec
      constructor
      · have happ : WellFormed (state.history ++ result.transcriptDelta) :=
          Paired.append hkept.history hdelta
        rw [trim_eq_drop]
        apply (happ.drop_iff_startsWell _).mpr
        apply hcut _ _ _ _ _ _ hexec hinput hok
      · intro written
        apply Paired.append hkept.stored (Paired.take hdelta written)
  constructor
  · constructor
    case toWellKept => exact ⟨hhis.1, hhis.2⟩
    case handed =>
      intro _ _ _ _ hexec
      obtain ⟨arrival, -, -, heq⟩ | ⟨hbef, -⟩ := loop.executing_step hexec
      · obtain ⟨-, rfl, -, -⟩ := LoopStatus.executing.inj heq
        apply (loop.prepared_contextFor arrival hkept.history).messages
      · apply hkept.handed _ _ _ _ hbef
  · intro _ _ _ _ hexec
    obtain ⟨arrival, -, -, heq⟩ | ⟨hbef, -⟩ := loop.executing_step hexec
    · obtain ⟨-, -, -, hres⟩ := LoopStatus.executing.inj heq
      apply loop.executor.wellFormed_transcriptDelta loop.agentId hres
    · apply hret _ _ _ _ hbef

theorem cutsWell_of_kept_step
    {input : PersistentInput σ} (hkept : (loop.step state input).WellKept) :
  loop.CutsWell state input
  := by
  rintro traceId messagesForLlm promptForLlm result append now hexec rfl hok
  obtain ⟨-, hext⟩ := loop.extended_finish append now traceId state hok
  have hhis := hkept.history
  rw [loop.step_returned append now hexec, hext.history, trim_eq_drop] at hhis
  intro message hmsg
  apply hhis.not_isReply_head
  rw [List.head?_drop, hmsg]

theorem kept_start {stored : List Message} (hstore : WellFormed stored) :
  (start stored).Kept ∧ (start stored).Returns
  := by
  apply WellKept.kept
  · exact ⟨hstore, hstore⟩
  · rintro _ _ _ _ ⟨⟩

/-- In a run from an empty store, the histories that are kept and the messages handed to the
executor are well-formed exactly when the history is never cut at a result of a tool. -/
theorem kept_run_iff (loop : PersistentLoop σ) (inputs : List (PersistentInput σ)) :
  (∀ before after, inputs = before ++ after → (loop.run (start []) before).Kept)
    ↔ ∀ before input after, inputs = before ++ input :: after →
      loop.CutsWell (loop.run (start []) before) input
  := by
  apply Machine.always_iff_everyStep (I := fun state => state.Kept ∧ state.Returns)
  · rintro state ⟨hkept, -⟩
    apply hkept
  · rintro state input ⟨hkept, hret⟩ hcut
    apply kept_step hkept hret hcut
  · intro state input _ hkept
    apply cutsWell_of_kept_step hkept.toWellKept
  · apply kept_start Paired.nil

/-! ### A history that is cut at a result -/

/-- An agent with a history of at most two messages. -/
def twoMessageLoop : PersistentLoop Unit where
  agentId := ⟨1⟩
  manifest :=
    { name := "reader"
      model := "model"
      systemPrompt := .inline "Read."
      capabilities := []
      budgetConfig := none }
  maxHistoryMessages := some 2
  executor :=
    { services := nullServices
      config := {}
      texts := ⟨fun _ => [], fun _ => []⟩
      readToString _ := .error [] }
  contextManager := none
  clearSessionOnExit := false

/-- A message to which the model reacts with a call of a tool and then an answer. -/
def readArrival : Arrival Unit where
  message := ⟨"agent.run", .obj [("message", .str "Read it.")], 7⟩
  services := ()
  script :=
    [.ok ⟨[.toolUse "t1" "file_read" .null], .toolUse, {}⟩,
      .ok ⟨[.text "Done."], .endTurn, {}⟩]
  summaryAnswer := .error .authError
  archive := .ok 0
  replace := .ok ()
  now := 0

/-- After one message the history begins with the result of a call that was cut off. -/
theorem not_kept_twoMessageLoop :
  ¬ (twoMessageLoop.run (start []) [.message readArrival, .returned (.ok ()) 0]).Kept
  := by
  intro hkept
  have hhead : (twoMessageLoop.run (start [])
      [.message readArrival, .returned (.ok ()) 0]).history.head?
        = some (.toolResult "t1" .null false) := rfl
  apply hkept.history.not_isReply_head hhead
  rfl

end PersistentLoop
