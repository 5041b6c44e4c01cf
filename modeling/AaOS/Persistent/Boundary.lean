import Mathlib.Data.UInt
import AaOS.Lib.History
import AaOS.Persistent.Context

/-!
# Where a history is cut

`select_summarization_boundary` of `aaos-runtime/src/context.rs` looks for the first message with
which a target is reached, and moves the cut after it out of an exchange with tools; when nothing
is cut off that way, the history is cut in its middle.  A cut never separates calls from their
results, but the messages before it may be more than the target asks for, by an exchange of any
size.
-/

open List

namespace ContextManager

/-! ### Exchanges -/

abbrev ResultAt (history : List Message) (i : Nat) : Prop :=
  (history[i]?).any Message.isToolResult = true

abbrev AssistantAt (history : List Message) (i : Nat) : Prop :=
  (history[i]?).any Message.isAssistant = true

abbrev CallAt (history : List Message) (i : Nat) : Prop :=
  (history[i]?).any Message.hasToolUse = true

section Adjust

variable {history : List Message} {b : Nat}

theorem not_resultAt_of_assistantAt (hasst : AssistantAt history b) :
  ¬ ResultAt history b
  := by
  generalize hat : history[b]? = at?
  rw [AssistantAt, hat] at hasst
  rw [ResultAt, hat]
  cases at? with
  | none => simp
  | some message => apply Message.not_isToolResult_of_isAssistant hasst

theorem assistantAt_of_callAt (hcall : CallAt history b) :
  AssistantAt history b
  := by
  generalize hat : history[b]? = at?
  rw [CallAt, hat] at hcall
  rw [AssistantAt, hat]
  rcases at? with _ | _ | _ | _ | _
  case some.assistant => rfl
  all_goals cases hcall

theorem not_resultAt_includeResults (history : List Message) (b : Nat) :
  ¬ ResultAt history (includeResults history b)
  := by
  have hend := not_any_getElem?_takeWhile Message.isToolResult (history.drop b)
  rwa [getElem?_drop] at hend

theorem le_includeResults {n : Nat} (hres : ∀ i, b ≤ i → i < n → ResultAt history i) :
  n ≤ includeResults history b
  := by
  by_contra hlt
  apply not_resultAt_includeResults history b
  apply hres _ (Nat.le_add_right _ _) (Nat.lt_of_not_le hlt)

/-- The boundary is moved back to an assistant message or to the beginning, over messages of
others. -/
theorem backUp_spec (history : List Message) (b : Nat) :
  (backUp history b = 0 ∨ AssistantAt history (backUp history b))
    ∧ ∀ i, backUp history b < i → i < b → ¬ AssistantAt history i
  := by
  induction b with
  | zero => exact ⟨.inl rfl, by omega⟩
  | succ b ih =>
    rw [backUp]
    split_ifs with hasst
    · exact ⟨.inr hasst, by omega⟩
    · refine ⟨ih.1, ?_⟩
      intro i hlt hi
      obtain hi | rfl := Nat.lt_succ_iff_lt_or_eq.mp hi
      · apply ih.2 i hlt hi
      · apply hasst

theorem adjustBoundaryForToolPairs_cases (hlt : b < history.length) :
  (CallAt history b
      ∧ adjustBoundaryForToolPairs history (b + 1) = includeResults history (b + 1))
    ∨ (¬ CallAt history b ∧ ResultAt history (b + 1)
      ∧ adjustBoundaryForToolPairs history (b + 1) = backUp history (b + 1))
    ∨ (¬ CallAt history b ∧ ¬ ResultAt history (b + 1)
      ∧ adjustBoundaryForToolPairs history (b + 1) = b + 1)
  := by
  rw [adjustBoundaryForToolPairs, if_neg (by omega), Nat.add_sub_cancel]
  dsimp only
  by_cases hcall : CallAt history b
  · left
    rw [if_pos hcall, if_neg (not_resultAt_includeResults history (b + 1))]
    exact ⟨hcall, rfl⟩
  · rw [if_neg hcall]
    by_cases hres : ResultAt history (b + 1)
    · rw [if_pos hres]
      exact .inr (.inl ⟨hcall, hres, rfl⟩)
    · rw [if_neg hres]
      exact .inr (.inr ⟨hcall, hres, rfl⟩)

theorem adjustBoundaryForToolPairs_closes (hle : b ≤ history.length) :
  adjustBoundaryForToolPairs history b = 0
    ∨ ¬ ResultAt history (adjustBoundaryForToolPairs history b)
  := by
  cases b with
  | zero => exact .inl (if_pos (.inl rfl))
  | succ b =>
    obtain ⟨-, heq⟩ | ⟨-, -, heq⟩ | ⟨-, hend, heq⟩ := adjustBoundaryForToolPairs_cases hle
    · rw [heq]
      exact .inr (not_resultAt_includeResults history (b + 1))
    · rw [heq]
      exact (backUp_spec history (b + 1)).1.imp_right not_resultAt_of_assistantAt
    · rw [heq]
      exact .inr hend

theorem selectSummarizationBoundary_closes
    (manager : ContextManager) (history : List Message) (targetTokens : UInt32) :
  manager.selectSummarizationBoundary history targetTokens = 0
    ∨ ¬ ResultAt history (manager.selectSummarizationBoundary history targetTokens)
  := by
  unfold selectSummarizationBoundary
  dsimp only
  split_ifs
  · apply adjustBoundaryForToolPairs_closes
    omega
  · rcases hreach : manager.reachTarget targetTokens 0 0 history with _ | boundary
    · exact .inl rfl
    · apply adjustBoundaryForToolPairs_closes
      simpa using reachTarget_le hreach

end Adjust

/-! ### Cuts keep exchanges together -/

/-- The message at `j` is among the results that follow the calls of tools at `i`. -/
structure ResultOf (history : List Message) (i j : Nat) : Prop where
  call : CallAt history i
  lt : i < j
  results : ∀ k, i < k → k ≤ j → ResultAt history k

/-- The selected messages lie within the history, and the cut separates no calls of tools from their
results. -/
theorem select_summarization_boundary_keeps_exchanges
    (manager : ContextManager) (targetTokens : UInt32) (history : List Message) :
  manager.selectSummarizationBoundary history targetTokens ≤ history.length
    ∧ ∀ i j, ResultOf history i j →
      (i < manager.selectSummarizationBoundary history targetTokens
        ↔ j < manager.selectSummarizationBoundary history targetTokens)
  := by
  constructor
  · apply manager.selectSummarizationBoundary_le
  · intro i j hres
    have hlt := hres.lt
    generalize hn : manager.selectSummarizationBoundary history targetTokens = n
    obtain hzero | hend := hn ▸ manager.selectSummarizationBoundary_closes history targetTokens
    · omega
    · constructor
      · intro hi
        by_contra hj
        apply hend (hres.results n hi (Nat.le_of_not_lt hj))
      · intro hj
        omega

/-! ### The context of the model that sums up -/

section Sizes

variable (manager : ContextManager)

def chars (messages : List Message) : Nat := (messages.map manager.messageChars).sum

/-- The sum of the estimates for the single messages. -/
def tokens (messages : List Message) : Nat :=
  (messages.map fun message => manager.messageChars message / 4).sum

/-- The characters of a message and of the results of tools that follow it. -/
def exchangeChars (history : List Message) (i : Nat) : Nat :=
  manager.chars ((history.take (includeResults history (i + 1))).drop i)

/-- The results of tools follow calls, and no message has, with the results that follow it, more
than three tenths of the context; a message may lose three characters when its tokens are
estimated. -/
structure SmallExchanges (history : List Message) : Prop where
  answers : ∀ i, ResultAt history (i + 1) → CallAt history i ∨ ResultAt history i
  small : ∀ i < history.length,
    10 * (manager.exchangeChars history i + 3 * history.length)
      ≤ 12 * manager.summarizationModelMax.toNat

variable {manager} {history : List Message}

theorem tokens_bounds (manager : ContextManager) (messages : List Message) :
  4 * manager.tokens messages ≤ manager.chars messages
    ∧ manager.chars messages ≤ 4 * manager.tokens messages + 3 * messages.length
  := by
  induction messages with
  | nil => simp [tokens, chars]
  | cons message messages ih =>
    unfold tokens chars at ih ⊢
    rw [map_cons, map_cons, sum_cons, sum_cons, length_cons]
    omega

theorem chars_take {i n : Nat} (hle : i ≤ n) :
  manager.chars (history.take n)
    = manager.chars (history.take i) + manager.chars ((history.take n).drop i)
  := by
  conv_lhs => rw [← take_append_drop i (history.take n), take_take, min_eq_left hle]
  rw [chars, map_append, sum_append]
  rfl

theorem chars_take_includeResults (i : Nat) :
  manager.chars (history.take (includeResults history (i + 1)))
    = manager.chars (history.take i) + manager.exchangeChars history i
  := chars_take (by unfold includeResults; omega)

theorem chars_take_mono (manager : ContextManager) (history : List Message) {i n : Nat}
    (hle : i ≤ n) :
  manager.chars (history.take i) ≤ manager.chars (history.take n)
  := by
  rw [chars_take hle]
  apply Nat.le_add_right

theorem messageChars_le_exchangeChars (manager : ContextManager) {i : Nat}
    (hi : i < history.length) :
  manager.messageChars history[i] ≤ manager.exchangeChars history i
  := by
  have hle := manager.chars_take_mono history
    (Nat.le_add_right (i + 1) ((history.drop (i + 1)).takeWhile Message.isToolResult).length)
  change _ ≤ manager.chars (history.take (includeResults history (i + 1))) at hle
  rw [chars_take_includeResults, take_succ_eq_append_getElem hi, chars, map_append,
    sum_append] at hle
  simpa [chars] using hle

/-- The target is reached with a message and not before, or it is not reached at all. -/
theorem reachTarget_spec {targetTokens accumulated : UInt32} {i : Nat} {messages : List Message}
    (hsmall : ∀ message ∈ messages, targetTokens.toNat + manager.messageChars message / 4 < 2 ^ 32)
    (hle : accumulated.toNat ≤ targetTokens.toNat) :
  match manager.reachTarget targetTokens accumulated i messages with
  | none => accumulated.toNat + manager.tokens messages ≤ targetTokens.toNat
  | some n => ∃ k < messages.length, n = i + k + 1
      ∧ accumulated.toNat + manager.tokens (messages.take k) ≤ targetTokens.toNat
      ∧ targetTokens.toNat ≤ accumulated.toNat + manager.tokens (messages.take (k + 1))
  := by
  induction messages generalizing accumulated i with
  | nil => exact hle
  | cons message messages ih =>
    have hmsg := hsmall message mem_cons_self
    have hsum : (accumulated + UInt32.ofNat (manager.messageChars message / 4)).toNat
        = accumulated.toNat + manager.messageChars message / 4 := by
      rw [UInt32.toNat_add, UInt32.toNat_ofNat']
      omega
    have htoken (messages : List Message) : manager.tokens (message :: messages)
        = manager.messageChars message / 4 + manager.tokens messages := rfl
    rw [reachTarget]
    split_ifs with hreach
    · rw [UInt32.le_iff_toNat_le, hsum] at hreach
      exact ⟨0, by simp, rfl, hle, hreach⟩
    · rw [UInt32.le_iff_toNat_le, hsum, not_le] at hreach
      have hrest := @ih (accumulated + UInt32.ofNat (manager.messageChars message / 4)) (i + 1)
        (fun other hmem => hsmall other (mem_cons_of_mem _ hmem)) (hsum ▸ hreach.le)
      rw [hsum] at hrest
      revert hrest
      rcases manager.reachTarget targetTokens _ (i + 1) messages with _ | n
      · intro hrest
        dsimp only at hrest ⊢
        rw [htoken]
        omega
      · rintro ⟨k, hk, rfl, hbelow, habove⟩
        refine ⟨k + 1, Nat.succ_lt_succ hk, by omega, ?_⟩
        rw [take_succ_cons, take_succ_cons, htoken, htoken]
        omega

theorem estimateTokens_le {messages : List Message} {limit : UInt32}
    (hle : manager.chars messages ≤ 4 * limit.toNat) :
  manager.estimateTokens messages ≤ limit
  := by
  rw [UInt32.le_iff_toNat_le, estimateTokens, UInt32.toNat_ofNat']
  have hmod := Nat.mod_le ((messages.map manager.messageChars).sum / 4) (2 ^ 32)
  unfold chars at hle
  omega

variable {k : Nat}

namespace SmallExchanges

variable (hexchanges : manager.SmallExchanges history)
include hexchanges

theorem chars_le (hk : k < history.length) :
  5 * manager.exchangeChars history k + 15 * history.length
    ≤ 6 * manager.summarizationModelMax.toNat
  := by
  have hsmall := hexchanges.small k hk
  omega

/-- A boundary that is moved back to the beginning lies in the first exchange. -/
theorem chars_le_of_backUp (hres : ResultAt history (k + 1)) (hback : backUp history (k + 1) = 0) :
  manager.chars (history.take (k + 1)) ≤ manager.exchangeChars history 0
  := by
  have hresul (i : Nat) (hpos : 1 ≤ i) (hi : i ≤ k + 1) : ResultAt history i := by
    induction hi using Nat.decreasingInduction with
    | self => exact hres
    | of_succ i hlt ih =>
      apply (hexchanges.answers i (ih (by omega))).resolve_left
      intro hcall
      apply (backUp_spec history (k + 1)).2 i (by omega) hlt
      apply assistantAt_of_callAt hcall
  have hle := manager.chars_take_mono history
    (le_includeResults fun i hpos hi => hresul i hpos hi.le)
  rw [chars_take_includeResults 0, take_zero] at hle
  simpa [chars] using hle

theorem adjusted_ne_zero (hk : k < history.length)
    (hreach : manager.summarizationModelMax.toNat * 7 / 10
      ≤ manager.tokens (history.take (k + 1))) :
  adjustBoundaryForToolPairs history (k + 1) ≠ 0
  := by
  intro hzero
  obtain ⟨-, heq⟩ | ⟨-, hres, heq⟩ | ⟨-, -, heq⟩ := adjustBoundaryForToolPairs_cases hk
  · unfold includeResults at heq
    omega
  · have hfirst := hexchanges.chars_le_of_backUp hres (heq.symm.trans hzero)
    have hsmall := hexchanges.chars_le (k := 0) (by omega)
    have htoken := (manager.tokens_bounds (history.take (k + 1))).1
    omega
  · omega

theorem chars_adjusted (hk : k < history.length)
    (hbelow : manager.tokens (history.take k) ≤ manager.summarizationModelMax.toNat * 7 / 10) :
  manager.chars (history.take (adjustBoundaryForToolPairs history (k + 1)))
    ≤ 4 * manager.summarizationModelMax.toNat
  := by
  have hle : adjustBoundaryForToolPairs history (k + 1) ≤ includeResults history (k + 1) := by
    have hback := backUp_le history (k + 1)
    unfold includeResults
    obtain ⟨-, heq⟩ | ⟨-, -, heq⟩ | ⟨-, -, heq⟩ := adjustBoundaryForToolPairs_cases hk
    · exact heq.le
    · omega
    · omega
  have hchars := manager.chars_take_mono history hle
  rw [chars_take_includeResults] at hchars
  have hsmall := hexchanges.chars_le hk
  have htoken := (manager.tokens_bounds (history.take k)).2
  rw [length_take] at htoken
  omega

theorem chars_half (hbelow : manager.tokens history ≤ manager.summarizationModelMax.toNat * 7 / 10)
    (n : Nat) :
  manager.chars (history.take n) ≤ 4 * manager.summarizationModelMax.toNat
  := by
  have hle : manager.chars (history.take n) ≤ manager.chars history := by
    rw [← take_append_drop n history, chars, chars, map_append, sum_append, take_append_drop]
    apply Nat.le_add_right
  have htoken := (manager.tokens_bounds history).2
  rcases history with _ | ⟨message, history⟩
  · exact hle.trans (Nat.zero_le _)
  · have hsmall := hexchanges.chars_le (k := 0) (by simp)
    omega

theorem chars_select (hlimit : manager.summarizationModelMax.toNat * 7 < 2 ^ 32) :
  manager.chars (history.take
      (manager.selectSummarizationBoundary history (manager.summarizationModelMax * 7 / 10)))
    ≤ 4 * manager.summarizationModelMax.toNat
  := by
  have htar : (manager.summarizationModelMax * 7 / 10).toNat
      = manager.summarizationModelMax.toNat * 7 / 10 := by
    rw [UInt32.toNat_div, UInt32.toNat_mul]
    change manager.summarizationModelMax.toNat * 7 % 2 ^ 32 / 10 = _
    rw [Nat.mod_eq_of_lt hlimit]
  have hsmall : ∀ message ∈ history, (manager.summarizationModelMax * 7 / 10).toNat
      + manager.messageChars message / 4 < 2 ^ 32 := by
    intro message hmem
    obtain ⟨i, hi, rfl⟩ := getElem_of_mem hmem
    have hmsg := manager.messageChars_le_exchangeChars hi
    have hexc := hexchanges.chars_le hi
    have hlt := manager.summarizationModelMax.toNat_lt
    omega
  have hspec := @reachTarget_spec manager _ 0 0 history hsmall (Nat.zero_le _)
  rw [htar, UInt32.toNat_zero] at hspec
  unfold selectSummarizationBoundary
  revert hspec
  rcases manager.reachTarget (manager.summarizationModelMax * 7 / 10) 0 0 history with _ | b
  · intro hbelow
    apply hexchanges.chars_half
    rwa [Nat.zero_add] at hbelow
  · rintro ⟨k, hk, rfl, hbelow, habove⟩
    rw [Nat.zero_add] at hbelow habove
    dsimp only
    rw [Nat.zero_add, if_neg (fun hzero => hexchanges.adjusted_ne_zero hk habove hzero.1)]
    apply hexchanges.chars_adjusted hk hbelow

end SmallExchanges

end Sizes

theorem nine_tenths_le (limit : UInt32) : limit * 9 / 10 ≤ limit := by
  rw [UInt32.le_iff_toNat_le, UInt32.toNat_div, UInt32.toNat_mul]
  have hmod := Nat.mod_le (limit.toNat * (9 : UInt32).toNat) (2 ^ 32)
  change limit.toNat * 9 % 2 ^ 32 / 10 ≤ limit.toNat
  change limit.toNat * 9 % 2 ^ 32 ≤ limit.toNat * 9 at hmod
  omega

def roomyManager : ContextManager where
  jsonLen _ := 0
  exceedsThreshold n := 50 < n
  targetTokens := 55
  summarizationModelMax := 60

def callingHistory : List Message :=
  [.user (List.replicate 52 'a'), .user (List.replicate 52 'b'), .user (List.replicate 52 'c'),
    .assistant [.text (List.replicate 24 'd'), .toolUse [] [] .null],
    .toolResult (List.replicate 24 'e') .null false, .user (List.replicate 52 'f')]

def smallManager : ContextManager where
  jsonLen _ := 0
  exceedsThreshold n := 8 < n
  targetTokens := 4
  summarizationModelMax := 10

end ContextManager
