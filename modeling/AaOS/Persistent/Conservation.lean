import AaOS.Persistent.Agreement
import AaOS.Persistent.Summaries
import Mathlib.Data.List.Perm.Subperm

/-!
# The conservation of messages

The history in memory is cut to its limit, the one in the store is not.  When a part of the
history is summed up, that part is archived, and the store is given the history in memory.
The messages that had been cut from the history in memory are then neither in the store nor
in an archive.
-/

open List PersistentInput

/-- The messages that are no summaries. -/
def conversation (messages : List Message) : List Message :=
  messages.filter (fun message => !message.isSummary)

def StoreCall.appended : StoreCall → List Message
  | append messages => messages
  | replace _ | archiveSegment .. | clear => []

namespace PersistentState

def appended (state : PersistentState) : List Message :=
  state.storeCalls.flatMap StoreCall.appended

def archived (state : PersistentState) : List Message :=
  state.archives.flatMap ArchiveSegment.messages

/-- While the loop runs, the messages that were in the store at first or were appended are in the
store or in the archives. -/
def Conserves (initial : List Message) (state : PersistentState) : Prop :=
  state.status ≠ .stopped →
    (conversation initial ++ state.appended).Subperm (state.stored ++ state.archived)

end PersistentState

section Conversation

variable {messages messages' : List Message}

theorem conversation_append :
  conversation (messages ++ messages') = conversation messages ++ conversation messages'
  := filter_append ..

theorem conversation_cons_of_isSummary {summary : Message} (hsum : summary.isSummary = true) :
  conversation (summary :: messages) = conversation messages
  := by
  apply filter_cons_of_neg
  simp [hsum]

theorem SummaryFree.conversation_eq (hfree : SummaryFree messages) :
  conversation messages = messages
  := by
  apply filter_eq_self.mpr
  intro message hmem
  rw [hfree message hmem]
  rfl

theorem summaryFree_conversation : SummaryFree (conversation messages) := by
  intro message hmem
  obtain ⟨-, hmsg⟩ := mem_filter.mp hmem
  simpa using hmsg

theorem perm_conversation_drop_take (n : Nat) :
  (conversation (messages.drop n) ++ conversation (messages.take n)).Perm (conversation messages)
  := by
  apply perm_append_comm.trans
  rw [← conversation_append, take_append_drop]

end Conversation

namespace PersistentLoop

open PersistentState

variable {σ : Type} {loop : PersistentLoop σ} {initial : List Message}
  {state state' : PersistentState}

/-- When a part of the history is summed up, the conversation in the store is the one in
memory. -/
def KeepsCut (loop : PersistentLoop σ) (state : PersistentState) (input : PersistentInput σ) :
    Prop :=
  ∀ arrival, input = .message arrival → loop.Summarizes state arrival →
    conversation state.stored = conversation state.history

/-- The history in memory is the end of the stored one, and the conversation is in the store and in
the archives. -/
structure Accounted (initial : List Message) (state : PersistentState) : Prop where
  suffix : state.history <:+ state.stored
  perm : (conversation initial ++ state.appended).Perm
    (conversation state.stored ++ conversation state.archived)

theorem Accounted.conserves (hacc : state.status ≠ .stopped → Accounted initial state) :
  state.Conserves initial
  := by
  intro hrun
  apply (hacc hrun).perm.subperm.trans
  apply List.Sublist.subperm
  apply List.Sublist.append
  all_goals apply filter_sublist

theorem SameRecords.accounted (hsame : SameRecords state state') (hacc : Accounted initial state) :
  Accounted initial state'
  := by
  constructor
  case suffix =>
    rw [hsame.history, hsame.stored]
    apply hacc.suffix
  case perm =>
    unfold appended archived
    rw [hsame.storeCalls, hsame.stored, hsame.archives]
    apply hacc.perm

/-! ### Histories that are summed up -/

section Archived

variable {arrival : Arrival σ} {summ : SummarizationResult}

variable (harc : loop.Archived arrival summ state state')

include harc

theorem Archived.appended_eq :
  state'.appended = state.appended
  := by
  unfold appended
  rw [harc.storeCalls]
  simp [StoreCall.appended]

theorem Archived.perm (hsucc : (message arrival).Succeeds) :
  (conversation state'.stored ++ conversation state'.archived).Perm
    (conversation state.history ++ conversation state.archived)
  := by
  have hcover := covers_of_contextFor harc.summarization
  obtain ⟨archivedAt, -, harch⟩ := harc.archives
  have harc' : conversation state'.archived = conversation state.archived
      ++ conversation (state.history.take (summ.sourceRange.2 + 1)) := by
    unfold archived
    rw [harch, ← hcover.archivedMessages, flatMap_append, conversation_append]
    simp
  rw [harc.stored_eq hsucc, harc.history, conversation_cons_of_isSummary hcover.summary, harc']
  apply perm_append_comm.trans
  rw [append_assoc]
  apply perm_append_comm.trans
  apply List.Perm.append_right
  apply perm_append_comm.trans
  apply perm_conversation_drop_take

theorem Archived.accounted (hsucc : (message arrival).Succeeds) (hacc : Accounted initial state)
    (hkeeps : conversation state.stored = conversation state.history) :
  Accounted initial state'
  := by
  constructor
  case suffix =>
    use []
    rw [nil_append, harc.stored_eq hsucc]
  case perm =>
    rw [harc.appended_eq]
    apply hacc.perm.trans
    rw [hkeeps]
    apply (harc.perm hsucc).symm

theorem Archived.keeps (hsucc : (message arrival).Succeeds) (hacc : Accounted initial state)
    (hcon : (conversation initial ++ state'.appended).Subperm (state'.stored ++ state'.archived)) :
  conversation state.stored = conversation state.history
  := by
  have hfree : SummaryFree (conversation initial ++ state.appended) := by
    intro message hmem
    have hmem' := hacc.perm.mem_iff.mp hmem
    rw [← conversation_append] at hmem'
    apply summaryFree_conversation message hmem'
  have hsub : (conversation (conversation initial ++ state'.appended)).Subperm
      (conversation (state'.stored ++ state'.archived)) := hcon.filter _
  rw [harc.appended_eq, hfree.conversation_eq, conversation_append] at hsub
  have hsuf : conversation state.history <:+ conversation state.stored := hacc.suffix.filter _
  symm
  apply hsuf.eq_of_length_le
  have hle := hsub.length_le
  rw [hacc.perm.length_eq, (harc.perm hsucc).length_eq, length_append, length_append] at hle
  omega

end Archived

/-! ### Runs -/

theorem Extended.accounted {append : Except (Nat × Text) Unit} {delta : List Message}
    (hext : loop.Extended append delta state state') (hsucc : append = .ok ())
    (hdelta : SummaryFree delta) (hacc : Accounted initial state) :
  Accounted initial state'
  := by
  have happ : state'.appended = state.appended ++ delta := by
    unfold appended
    rw [hext.storeCalls]
    simp [StoreCall.appended]
  have harc : state'.archived = state.archived := by
    unfold archived
    rw [hext.archives]
  constructor
  case suffix =>
    rw [hext.history, hext.stored_eq hsucc]
    apply loop.trim_append_suffix hacc.suffix
  case perm =>
    rw [happ, harc, hext.stored_eq hsucc, conversation_append,
      hdelta.conversation_eq, ← append_assoc]
    apply (hacc.perm.append_right delta).trans
    rw [append_assoc, append_assoc]
    apply List.Perm.append_left
    apply perm_append_comm

theorem Unarchived.accounted {arrival : Arrival σ} (hunar : loop.Unarchived arrival state state')
    (hacc : Accounted initial state) :
  Accounted initial state'
  := by
  have happ : state'.appended = state.appended := by
    obtain ⟨calls, hcalls, harc⟩ := hunar.storeCalls
    have hnone : calls.flatMap StoreCall.appended = [] := by
      rw [flatMap_eq_nil_iff]
      intro call hmem
      obtain ⟨sourceRange, messages, rfl⟩ := harc call hmem
      rfl
    unfold appended
    rw [hcalls, flatMap_append, hnone, append_nil]
  constructor
  case suffix =>
    rw [hunar.history, hunar.stored]
    apply hacc.suffix
  case perm =>
    unfold archived
    rw [happ, hunar.stored, hunar.archives]
    apply hacc.perm

theorem accounted_step {input : PersistentInput σ} (hsucc : input.Succeeds)
    (hacc : state.status ≠ .stopped → Accounted initial state) (hret : state.ReturnsNoSummary)
    (hkeeps : loop.KeepsCut state input) (hrun : (loop.step state input).status ≠ .stopped) :
  Accounted initial (loop.step state input)
  := by
  obtain ⟨hbef, hchan⟩ := loop.running_step hrun
  generalize loop.step state input = state' at hchan
  cases hchan with
  | received hunar => apply hunar.accounted (hacc hbef)
  | summarized hwait harc =>
    apply harc.accounted hsucc (hacc hbef)
    apply hkeeps _ rfl
    constructor
    · apply hwait
    · rw [harc.summarization]
      rfl
  | finished hexec hext =>
    apply hext.accounted hsucc (hret _ _ _ _ hexec) (hacc hbef)
  | kept hsame => apply hsame.accounted (hacc hbef)

theorem keepsCut_of_conserves {input : PersistentInput σ} (hsucc : input.Succeeds)
    (hacc : state.status ≠ .stopped → Accounted initial state)
    (hcon : (loop.step state input).Conserves initial) :
  loop.KeepsCut state input
  := by
  rintro arrival rfl hsums
  obtain ⟨hstat, summ, harc⟩ := hsums.exists_archived hsucc
  apply harc.keeps hsucc
  · apply hacc
    simp [hsums.1]
  · apply hcon
    simp [hstat, executing]

/-- In a run on a store that does not fail, every message that was appended stays in the store or in
an archive exactly when the history is not summed up after it was cut. -/
theorem conserves_run_iff (loop : PersistentLoop σ) (initial : List Message)
    {inputs : List (PersistentInput σ)} (hsucceeds : ∀ input ∈ inputs, input.Succeeds) :
  Machine.Always loop.step (Conserves initial) (start initial) inputs
    ↔ Machine.EveryStep loop.step loop.KeepsCut (start initial) inputs
  := by
  apply Machine.always_iff_everyStep_of_forall_mem hsucceeds (I := fun state =>
    (state.status ≠ .stopped → Accounted initial state) ∧ state.ReturnsNoSummary)
  · rintro state ⟨hacc, -⟩
    apply Accounted.conserves hacc
  · rintro state input hinput ⟨hacc, hret⟩ hkeeps
    constructor
    · apply accounted_step hinput hacc hret hkeeps
    · apply returnsNoSummary_step hret
  · rintro state input hinput ⟨hacc, -⟩ hcon
    apply keepsCut_of_conserves hinput hacc hcon
  · constructor
    · intro _
      constructor
      case suffix => apply List.suffix_rfl
      case perm => apply List.Perm.refl
    · rintro _ _ _ _ ⟨⟩

theorem conserves_run_iff_summarizingLoop :
  (∀ input ∈ [.message summaryArrival, .returned (.ok ()) 0, .message summaryArrival],
      PersistentInput.Succeeds input)
    ∧ (Machine.Always summarizingLoop.step (Conserves []) (start [])
        [.message summaryArrival, .returned (.ok ()) 0, .message summaryArrival]
      ↔ Machine.EveryStep summarizingLoop.step summarizingLoop.KeepsCut (start [])
        [.message summaryArrival, .returned (.ok ()) 0, .message summaryArrival])
  := by
  constructor
  · apply succeeds_summaryArrival
  · apply conserves_run_iff summarizingLoop [] succeeds_summaryArrival

/-! ### A message that is lost -/

def nextArrival : Arrival Unit :=
  { summaryArrival with
    message := ⟨"agent.run", .obj [("message", .str "Go on.")], 8⟩
    script := [.ok ⟨[.text "Fine."], .endTurn, {}⟩] }

def afterTwoTurns : PersistentState :=
  summarizingLoop.run (start [])
    [.message summaryArrival, .returned (.ok ()) 0, .message nextArrival, .returned (.ok ()) 0]

theorem stored_afterTwoTurns :
  afterTwoTurns.stored ++ afterTwoTurns.archived =
    [.summary "So far." 1 (0, 0), .assistant [.text "Done."],
      .user "Go on.", .assistant [.text "Fine."], .toolResult "t1" .null false]
  := rfl

/-- After two turns the first message is neither in the store nor in an archive. -/
theorem not_conserves_summarizingLoop :
  ¬ Machine.Always summarizingLoop.step (Conserves []) (start [])
    [.message summaryArrival, .returned (.ok ()) 0, .message nextArrival, .returned (.ok ()) 0]
  := by
  intro halways
  have hcon : (conversation [] ++ afterTwoTurns.appended).Subperm
      (afterTwoTurns.stored ++ afterTwoTurns.archived) :=
    halways _ [] (List.append_nil _).symm (by rintro ⟨⟩)
  have hmem : Message.user "Read it." ∈ conversation [] ++ afterTwoTurns.appended :=
    List.mem_cons_self
  have hfound := hcon.subset hmem
  rw [stored_afterTwoTurns] at hfound
  simp only [List.mem_cons, List.not_mem_nil, or_false, reduceCtorEq, false_or,
    Message.user.injEq] at hfound
  revert hfound
  decide

end PersistentLoop
