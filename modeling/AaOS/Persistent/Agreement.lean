import AaOS.Persistent.History

/-!
# The agreement of memory and store

As long as the operations on the store succeed and the loop is not left, the history in
memory is the end of the history in the store, and no longer than its limit.  When the
history was summed up, the two are the same.
-/

open List

/-- The operations on the store succeed. -/
def PersistentInput.Succeeds {σ : Type} : PersistentInput σ → Prop
  | .message arrival => (∃ archivedAt, arrival.archive = .ok archivedAt) ∧ arrival.replace = .ok ()
  | .returned append _ => append = .ok ()
  | .messagesClosed clears | .command _ clears => clears = true

namespace PersistentLoop

variable {σ : Type} (loop : PersistentLoop σ)

/-- While the loop runs, the history in memory is within its limit, and is the end of the one in the
store. -/
def Agrees (state : PersistentState) : Prop :=
  state.status ≠ .stopped →
    state.history.length ≤ loop.maxHistory ∧ state.history <:+ state.stored

/-- The message is received and a part of the history is summed up for it. -/
def Summarizes (state : PersistentState) (arrival : Arrival σ) : Prop :=
  state.status = .waiting ∧ (loop.contextFor arrival state.history).summarization.isSome = true

/-- When the step sums up a part of the history, then memory and store are the same after
it. -/
def Synchronizes (state : PersistentState) (input : PersistentInput σ) : Prop :=
  ∀ arrival, input = .message arrival → loop.Summarizes state arrival →
    (loop.step state input).history = (loop.step state input).stored

variable {loop} {state state' : PersistentState} {arrival : Arrival σ}

theorem length_trim_le (loop : PersistentLoop σ) (history : List Message) :
  (loop.trim history).length ≤ loop.maxHistory
  := by
  rw [trim_eq_drop, length_drop, cut]
  omega

theorem trim_append_suffix (loop : PersistentLoop σ) {history stored : List Message}
    (hsuf : history <:+ stored) (delta : List Message) :
  loop.trim (history ++ delta) <:+ stored ++ delta
  := by
  obtain ⟨before, rfl⟩ := hsuf
  rw [trim_eq_drop]
  apply (drop_suffix _ _).trans
  use before
  rw [append_assoc]

theorem Archived.length_history_le
    {summ : SummarizationResult} (harc : loop.Archived arrival summ state state') :
  state'.history.length ≤ state.history.length
  := by
  have hbound := (covers_of_contextFor harc.summarization).bounded
  rw [harc.history, length_cons, length_drop]
  omega

theorem Archived.stored_eq
    {summ : SummarizationResult} (harc : loop.Archived arrival summ state state')
    (hsucc : (PersistentInput.message arrival).Succeeds) :
  state'.stored = state'.history
  := by
  obtain ⟨-, hstore⟩ | ⟨⟨message, herror⟩, -⟩ := harc.stored
  · apply hstore
  · rw [hsucc.2] at herror
    cases herror

theorem Extended.stored_eq {append : Except (Nat × Text) Unit} {delta : List Message}
    (hext : loop.Extended append delta state state') (hsucc : append = .ok ()) :
  state'.stored = state.stored ++ delta
  := by
  obtain ⟨-, hstore⟩ | ⟨written, message, herror, -⟩ := hext.stored
  · apply hstore
  · rw [hsucc] at herror
    cases herror

theorem agrees_step
    {input : PersistentInput σ} (hagree : loop.Agrees state) (hsucc : input.Succeeds) :
  loop.Agrees (loop.step state input)
  := by
  intro hrun
  obtain ⟨hbef, hchan⟩ := loop.running_step hrun
  generalize loop.step state input = state' at hchan
  obtain ⟨hlen, hsuf⟩ := hagree hbef
  cases hchan with
  | received hunar =>
    rw [hunar.history, hunar.stored]
    exact ⟨hlen, hsuf⟩
  | summarized _ harc =>
    constructor
    · apply harc.length_history_le.trans hlen
    · use []
      rw [nil_append, harc.stored_eq hsucc]
  | finished _ hext =>
    rw [hext.history, hext.stored_eq hsucc]
    constructor
    · apply loop.length_trim_le
    · apply loop.trim_append_suffix hsuf
  | kept hsame =>
    rw [hsame.history, hsame.stored]
    exact ⟨hlen, hsuf⟩

theorem Summarizes.exists_archived (hsums : loop.Summarizes state arrival)
    (hsucc : (PersistentInput.message arrival).Succeeds) :
  (loop.step state (.message arrival)).status = loop.executing arrival state.history
    ∧ ∃ summ, loop.Archived arrival summ state (loop.step state (.message arrival))
  := by
  obtain ⟨hwait, hsome⟩ := hsums
  have hchan := loop.change_receive (s := state) arrival hwait
  have hrec : (loop.receive arrival state).status = loop.executing arrival state.history := rfl
  rw [loop.step_message arrival hwait]
  generalize loop.receive arrival state = state' at hchan hrec
  constructor
  · apply hrec
  cases hchan with
  | received _ _ hunar =>
    obtain hnone | ⟨message, herror⟩ := hunar.reason
    · rw [hnone] at hsome
      cases hsome
    · obtain ⟨⟨archivedAt, harc⟩, -⟩ := hsucc
      rw [harc] at herror
      cases herror
  | summarized _ _ harch => exact ⟨_, harch⟩
  | idle hstat _ =>
    rw [hwait, hrec] at hstat
    cases hstat

theorem synchronizes_of_succeeds (loop : PersistentLoop σ) (state : PersistentState)
    {input : PersistentInput σ} (hsucc : input.Succeeds) :
  loop.Synchronizes state input
  := by
  rintro arrival rfl hsums
  obtain ⟨-, summ, harc⟩ := hsums.exists_archived hsucc
  apply (harc.stored_eq hsucc).symm

/-- In every run on a store that does not fail, from a history within the limit, memory and store
agree, and are the same directly after a part of the history was summed up. -/
theorem agrees_run
    (loop : PersistentLoop σ) {stored : List Message} (hstored : stored.length ≤ loop.maxHistory)
    {inputs : List (PersistentInput σ)} (hsucceeds : ∀ input ∈ inputs, input.Succeeds) :
  Machine.Always loop.step loop.Agrees (start stored) inputs
    ∧ Machine.EveryStep loop.step loop.Synchronizes (start stored) inputs
  := by
  constructor
  · have hevery : Machine.EveryStep loop.step (fun _ input => input.Succeeds) (start stored)
        inputs := Machine.everyStep_of_forall_mem hsucceeds
    apply hevery.always (I := loop.Agrees)
    · intro state input hagree hinput
      apply agrees_step hagree hinput
    · intro _
      exact ⟨hstored, List.suffix_rfl⟩
  · intro before input after heq
    apply loop.synchronizes_of_succeeds
    apply hsucceeds
    simp [heq]

/-! ### An agent that sums up its history -/

def eagerManager : ContextManager where
  jsonLen _ := 0
  exceedsThreshold _ := true
  targetTokens := 0
  summarizationModelMax := 1000

/-- An agent that sums up a history of at most two messages. -/
def summarizingLoop : PersistentLoop Unit :=
  { twoMessageLoop with contextManager := some eagerManager }

/-- A message for which the history can be summed up. -/
def summaryArrival : Arrival Unit :=
  { readArrival with summaryAnswer := .ok ⟨[.text "So far."], .endTurn, {}⟩ }

theorem succeeds_summaryArrival :
  ∀ input ∈ [.message summaryArrival, .returned (.ok ()) 0, .message summaryArrival],
    PersistentInput.Succeeds input
  := by
  intro input hmem
  simp only [mem_cons, not_mem_nil, or_false] at hmem
  obtain rfl | rfl | rfl := hmem
  · exact ⟨⟨0, rfl⟩, rfl⟩
  · rfl
  · exact ⟨⟨0, rfl⟩, rfl⟩

theorem summarizes_summaryArrival :
  summarizingLoop.Summarizes (summarizingLoop.run (start [])
    [.message summaryArrival, .returned (.ok ()) 0]) summaryArrival
  := by
  constructor
  · rfl
  · rfl

/-- The second message is one for which the history is summed up. -/
theorem agrees_run_summarizingLoop :
  summarizingLoop.Summarizes (summarizingLoop.run (start [])
      [.message summaryArrival, .returned (.ok ()) 0]) summaryArrival
    ∧ Machine.Always summarizingLoop.step summarizingLoop.Agrees (start [])
      [.message summaryArrival, .returned (.ok ()) 0, .message summaryArrival]
    ∧ Machine.EveryStep summarizingLoop.step summarizingLoop.Synchronizes (start [])
      [.message summaryArrival, .returned (.ok ()) 0, .message summaryArrival]
  := by
  constructor
  · apply summarizes_summaryArrival
  · apply agrees_run summarizingLoop (Nat.zero_le _) succeeds_summaryArrival

end PersistentLoop
