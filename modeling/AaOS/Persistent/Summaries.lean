import AaOS.Executor.RequestBody
import AaOS.Persistent.Agreement

/-!
# Where summaries are kept

The manager of the context takes only the summaries at the beginning of the history into the system
prompt.  Summaries are nowhere else, neither in memory nor in the store, over all the loops that an
agent is run by.
-/

open List

def SummariesFirst (messages : List Message) : Prop :=
  messages.Pairwise fun message later => later.isSummary = true → message.isSummary = true

namespace SummariesFirst

variable {messages added : List Message}

theorem nil : SummariesFirst [] := List.Pairwise.nil

variable (hfirst : SummariesFirst messages)

include hfirst

theorem drop (n : Nat) :
  SummariesFirst (messages.drop n)
  := by
  apply List.Pairwise.sublist (drop_sublist n messages) hfirst

theorem append (hfree : SummaryFree added) :
  SummariesFirst (messages ++ added)
  := by
  apply pairwise_append.mpr
  constructor
  · apply hfirst
  constructor
  · apply pairwise_of_forall_mem_list
    intro message _ later hlater hsum
    rw [hfree later hlater] at hsum
    cases hsum
  · intro message _ later hlater hsum
    rw [hfree later hlater] at hsum
    cases hsum

theorem cons {summary : Message} (hsum : summary.isSummary = true) :
  SummariesFirst (summary :: messages)
  := by
  apply List.Pairwise.cons _ hfirst
  intro later _ _
  apply hsum

theorem summaryFree_dropWhile :
  SummaryFree (messages.dropWhile Message.isSummary)
  := by
  induction messages with
  | nil => rintro message ⟨⟩
  | cons head messages ih =>
    obtain ⟨hhead, htail⟩ := pairwise_cons.mp hfirst
    by_cases hsum : head.isSummary = true
    · rw [dropWhile_cons_of_pos hsum]
      apply ih htail
    · rw [dropWhile_cons_of_neg hsum]
      intro message hmem
      rw [← Bool.not_eq_true]
      intro hmsg
      obtain rfl | hmem := mem_cons.mp hmem
      · contradiction
      · apply hsum (hhead message hmem hmsg)

end SummariesFirst

theorem SummaryFree.take {messages : List Message} (hfree : SummaryFree messages) (n : Nat) :
  SummaryFree (messages.take n)
  := by
  intro message hmem
  apply hfree message (mem_of_mem_take hmem)

namespace PersistentState

/-- Summaries are only at the beginning of the histories, and none is handed to the
executor. -/
structure SummariesLead (state : PersistentState) : Prop where
  history : SummariesFirst state.history
  stored : SummariesFirst state.stored
  handed : ∀ traceId messagesForLlm promptForLlm result,
    state.status = .executing traceId messagesForLlm promptForLlm result →
    SummaryFree messagesForLlm

def ReturnsNoSummary (state : PersistentState) : Prop :=
  ∀ traceId messagesForLlm promptForLlm result,
    state.status = .executing traceId messagesForLlm promptForLlm (some result) →
    SummaryFree result.transcriptDelta

end PersistentState

namespace PersistentLoop

open PersistentState

variable {σ : Type} {loop : PersistentLoop σ} {state : PersistentState}

def executionEvents (loop : PersistentLoop σ) (arrival : Arrival σ) (history : List Message) :
    List ExecutorEvent :=
  let prepared := loop.contextFor arrival history
  (loop.executor.runWithHistoryAndPrompt loop.agentId loop.manifest
    (extractUserMessage arrival.message) prepared.messages prepared.systemPrompt
    arrival.services arrival.script).1

/-! ### Steps of a loop -/

theorem returnsNoSummary_step (hret : state.ReturnsNoSummary) (input : PersistentInput σ) :
  (loop.step state input).ReturnsNoSummary
  := by
  intro _ _ _ _ hexec
  obtain ⟨arrival, -, -, heq⟩ | ⟨hbef, -⟩ := loop.executing_step hexec
  · obtain ⟨-, -, -, hres⟩ := LoopStatus.executing.inj heq
    apply loop.executor.summaryFree_transcriptDelta loop.agentId hres
  · apply hret _ _ _ _ hbef

variable (hman : loop.contextManager.isSome = true)

include hman

theorem summaryFree_contextFor (arrival : Arrival σ) {history : List Message}
    (hfirst : SummariesFirst history) :
  SummaryFree (loop.contextFor arrival history).messages
  := by
  obtain ⟨manager, hman⟩ := Option.isSome_iff_exists.mp hman
  unfold contextFor
  rw [hman]
  obtain ⟨-, hmsgs⟩ | ⟨-, -, hmsgs⟩ :=
    manager.prepares_prepareContext history loop.systemPromptStr arrival.summaryAnswer
  · dsimp only
    rw [hmsgs]
    apply hfirst.summaryFree_dropWhile
  · dsimp only
    rw [hmsgs]
    apply (hfirst.drop _).summaryFree_dropWhile

theorem summariesLead_step (hlead : state.SummariesLead) (hret : state.ReturnsNoSummary)
    (input : PersistentInput σ) :
  (loop.step state input).SummariesLead
  := by
  have hhis : SummariesFirst (loop.step state input).history
      ∧ SummariesFirst (loop.step state input).stored := by
    apply loop.histories_step input SummariesFirst.nil hlead.history hlead.stored
    · intro arrival summ hsumm
      apply (hlead.history.drop _).cons
      apply (covers_of_contextFor hsumm).summary
    · intro _ _ _ result _ _ hexec _ _
      have hdelta := hret _ _ _ _ hexec
      constructor
      · rw [trim_eq_drop]
        apply (hlead.history.append hdelta).drop
      · intro written
        apply hlead.stored.append (hdelta.take written)
  constructor
  case history => apply hhis.1
  case stored => apply hhis.2
  case handed =>
    intro _ _ _ _ hexec
    obtain ⟨arrival, -, -, heq⟩ | ⟨hbef, -⟩ := loop.executing_step hexec
    · obtain ⟨-, rfl, -, -⟩ := LoopStatus.executing.inj heq
      apply summaryFree_contextFor hman arrival hlead.history
    · apply hlead.handed _ _ _ _ hbef

theorem summariesLead_run (loads : Bool) {stored : List Message} (hstore : SummariesFirst stored)
    (inputs : List (PersistentInput σ)) :
  (loop.run (startLoading loads stored) inputs).SummariesLead
  := by
  have hevery : Machine.EveryStep loop.step (fun _ _ => True) (startLoading loads stored) inputs :=
    Machine.everyStep_of_forall_mem (fun _ _ => trivial)
  apply And.left (b := (loop.run (startLoading loads stored) inputs).ReturnsNoSummary)
  apply hevery.invariant (I := fun state => state.SummariesLead ∧ state.ReturnsNoSummary)
  · rintro state input ⟨hlead, hret⟩ -
    constructor
    · apply summariesLead_step hman hlead hret
    · apply returnsNoSummary_step hret
  · constructor
    · constructor
      case history =>
        rcases loads
        · apply SummariesFirst.nil
        · apply hstore
      case stored => apply hstore
      case handed => rintro _ _ _ _ ⟨⟩
    · rintro _ _ _ _ ⟨⟩

end PersistentLoop

/-! ### Lifetimes -/

/-- The time from the start of a loop with a manager of the context to its end, with what happens in
it. -/
structure Lifetime (σ : Type) where
  loop : PersistentLoop σ
  managed : loop.contextManager.isSome = true
  loads : Bool
  inputs : List (PersistentInput σ)

namespace Lifetime

open PersistentLoop

variable {σ : Type}

/-- The state at the end of a lifetime that begins with a store. -/
def run (lifetime : Lifetime σ) (stored : List Message) : PersistentState :=
  lifetime.loop.run (startLoading lifetime.loads stored) lifetime.inputs

/-- What is in the store, which is empty at first, after lifetimes that follow each other. -/
def storedAfter (lifetimes : List (Lifetime σ)) : List Message :=
  lifetimes.foldl (fun stored lifetime => (lifetime.run stored).stored) []

theorem summariesLead_lifetimeRun
    (lifetime : Lifetime σ) {stored : List Message} (hstore : SummariesFirst stored) :
  (lifetime.run stored).SummariesLead
  := by
  apply summariesLead_run lifetime.managed lifetime.loads hstore

theorem summariesFirst_storedAfter (lifetimes : List (Lifetime σ)) :
  SummariesFirst (storedAfter lifetimes)
  := by
  induction lifetimes using reverseRecOn with
  | nil => apply SummariesFirst.nil
  | append_singleton lifetimes lifetime ih =>
    rw [storedAfter, foldl_append]
    apply (lifetime.summariesLead_lifetimeRun ih).stored

/-- Over all lifetimes, summaries are only at the beginning of histories; none is handed to the
executor, and no body of a request is built with a panic. -/
theorem summaries_never_sent (earlier : List (Lifetime σ)) (lifetime : Lifetime σ) :
  (lifetime.run (storedAfter earlier)).SummariesLead
    ∧ ∀ arrival request, .complete request ∈
        lifetime.loop.executionEvents arrival (lifetime.run (storedAfter earlier)).history →
      SummaryFree request.messages
        ∧ ∀ jsonText, (OpenAiCompatClient.buildRequestBody jsonText request).isSome = true
          ∧ (AnthropicClient.buildRequestBody jsonText request).isSome = true
  := by
  have hlead := lifetime.summariesLead_lifetimeRun (summariesFirst_storedAfter earlier)
  constructor
  · apply hlead
  · intro arrival request hreq
    have hfree : SummaryFree request.messages := by
      apply lifetime.loop.executor.summaryFree_request _ _ hreq
      apply summaryFree_contextFor lifetime.managed arrival hlead.history
    constructor
    · apply hfree
    · intro jsonText
      constructor
      · apply OpenAiCompatClient.isSome_buildRequestBody jsonText hfree
      · apply AnthropicClient.isSome_buildRequestBody jsonText hfree

/-- A lifetime in which the history is summed up at the second message. -/
def summarizing : Lifetime Unit where
  loop := summarizingLoop
  managed := rfl
  loads := true
  inputs :=
    [.message summaryArrival, .returned (.ok ()) 0, .message summaryArrival, .returned (.ok ()) 0]

/-- A lifetime in which nothing has arrived yet. -/
def reloading : Lifetime Unit := { summarizing with inputs := [] }

/-- The second lifetime starts with the history that the first one has summed up, and the summary is
not sent to the model. -/
theorem summaries_never_sent_reloading :
  (storedAfter [summarizing]).map Message.isSummary = [true, false, false, false, false, false]
    ∧ (reloading.run (storedAfter [summarizing])).history = storedAfter [summarizing]
    ∧ (reloading.run (storedAfter [summarizing])).SummariesLead
    ∧ ∃ request, .complete request ∈ summarizingLoop.executionEvents readArrival
          (reloading.run (storedAfter [summarizing])).history
      ∧ SummaryFree request.messages
      ∧ ∀ jsonText, (AnthropicClient.buildRequestBody jsonText request).isSome = true
  := by
  obtain ⟨hlead, hsent⟩ := summaries_never_sent [summarizing] reloading
  have hmem : .complete _ ∈ summarizingLoop.executionEvents readArrival
      (reloading.run (storedAfter [summarizing])).history := mem_cons_self
  obtain ⟨hfree, hbuilt⟩ := hsent readArrival _ hmem
  exact ⟨by decide, rfl, hlead, _, hmem, hfree, fun jsonText => (hbuilt jsonText).2⟩

end Lifetime
