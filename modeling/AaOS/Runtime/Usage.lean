import AaOS.Lib.Effect
import AaOS.Runtime.Process

/-!
# The usage of an agent

`track_token_usage` of `aaos-runtime/src/registry.rs` adds the input and the output tokens and lets
`track` of `aaos-core/src/budget.rs` count the sum, both modulo 2^64.  The accounting fails exactly
when the number of all tokens is at least 2^64 and its remainder is within the limit.
-/

namespace BudgetTracker

/-- The next operation on the tracker begins a new period. -/
def ResetDue (tracker : BudgetTracker) (now : UInt64) : Prop :=
  tracker.config.resetPeriodSeconds ≠ 0 ∧ 1 ≤ now.toNat - tracker.lastResetCheck.toNat
    ∧ tracker.config.resetPeriodSeconds.toNat ≤ now.toNat - tracker.periodStart.toNat

instance (tracker : BudgetTracker) (now : UInt64) : Decidable (tracker.ResetDue now) :=
  inferInstanceAs (Decidable (_ ∧ _))

theorem usedTokens_maybeReset
    {tracker : BudgetTracker} {now : UInt64} (hdue : ¬ tracker.ResetDue now) (later : UInt64) :
  (tracker.maybeReset now later).usedTokens = tracker.usedTokens
  := by
  unfold maybeReset
  split_ifs with hsin hcheck hover
  · rfl
  · rfl
  · apply absurd _ hdue
    exact ⟨hsin, Nat.le_of_not_lt hcheck, hover⟩
  · rfl

theorem track_of_not_resetDue {tracker : BudgetTracker} {now : UInt64}
    (hdue : ¬ tracker.ResetDue now) (later tokens : UInt64) :
  (tracker.track now later tokens).2.config = tracker.config
    ∧ ((tracker.track now later tokens).1 = .ok ()
        ∧ tracker.usedTokens + tokens ≤ tracker.config.maxTokens
        ∧ (tracker.track now later tokens).2.usedTokens = tracker.usedTokens + tokens
      ∨ (tracker.track now later tokens).1 ≠ .ok ()
        ∧ tracker.config.maxTokens < tracker.usedTokens + tokens
        ∧ (tracker.track now later tokens).2.usedTokens = tracker.usedTokens)
  := by
  unfold track
  simp only [maybeReset_config, usedTokens_maybeReset hdue]
  split_ifs with hexc
  · simp [hexc, usedTokens_maybeReset hdue]
  · simp [UInt64.not_lt.mp hexc]

end BudgetTracker

namespace AgentRegistry

/-- The budget of an agent, if it has one. -/
def budgetTracker (registry : AgentRegistry) (id : AgentId) : Option BudgetTracker :=
  (registry.agents.lookup id).bind AgentProcess.budgetTracker

end AgentRegistry

/-! ### Exact accounting -/

/-- The number of the tokens that are counted and those of a further completion. -/
def BudgetTracker.demanded (tracker : BudgetTracker) (usage : TokenUsage) : Nat :=
  tracker.usedTokens.toNat + usage.inputTokens.toNat + usage.outputTokens.toNat

/-- The usage of an agent with a budget is decided and counted as with unbounded numbers. -/
structure ExactUsage (tracker : BudgetTracker) (usage : TokenUsage)
    (result : Except CoreError Unit) (after : BudgetTracker) : Prop where
  accepted_iff : result = .ok () ↔ tracker.demanded usage ≤ tracker.config.maxTokens.toNat
  counted : result = .ok () → after.usedTokens.toNat = tracker.demanded usage
  refused : result ≠ .ok () → after.usedTokens = tracker.usedTokens
  within : after.usedTokens ≤ tracker.config.maxTokens

/-- The number of all tokens exceeds a positive multiple of 2^64 by no more than the limit. -/
def BudgetTracker.Wraps (tracker : BudgetTracker) (usage : TokenUsage) : Prop :=
  ∃ k n, 0 < k ∧ n ≤ tracker.config.maxTokens.toNat ∧ tracker.demanded usage = k * 2 ^ 64 + n

namespace BudgetTracker

variable {tracker : BudgetTracker} {usage : TokenUsage}

theorem toNat_usedTokens_add_total (tracker : BudgetTracker) (usage : TokenUsage) :
  (tracker.usedTokens + usage.total).toNat = tracker.demanded usage % 2 ^ 64
  := by
  rw [TokenUsage.total, UInt64.toNat_add, UInt64.toNat_add, demanded, Nat.add_mod_mod,
    Nat.add_assoc]

theorem wraps_iff :
  tracker.Wraps usage
    ↔ 2 ^ 64 ≤ tracker.demanded usage
      ∧ tracker.demanded usage % 2 ^ 64 ≤ tracker.config.maxTokens.toNat
  := by
  have hlimit := tracker.config.maxTokens.toNat_lt
  constructor
  · rintro ⟨k, n, hpos, hn, hdem⟩
    omega
  · rintro ⟨hlarge, hwith⟩
    use tracker.demanded usage / 2 ^ 64, tracker.demanded usage % 2 ^ 64
    omega

end BudgetTracker

theorem AgentRegistry.trackTokenUsage_of_not_resetDue {registry : AgentRegistry} {id : AgentId}
    {tracker : BudgetTracker} {now : UInt64} (htrack : registry.budgetTracker id = some tracker)
    (hdue : ¬ tracker.ResetDue now) (later : UInt64) (usage : TokenUsage) :
  ∃ after, (registry.trackTokenUsage now later id usage).2.budgetTracker id = some after
    ∧ after.config = tracker.config
    ∧ ((registry.trackTokenUsage now later id usage).1 = .ok ()
        ∧ tracker.usedTokens + usage.total ≤ tracker.config.maxTokens
        ∧ after.usedTokens = tracker.usedTokens + usage.total
      ∨ (registry.trackTokenUsage now later id usage).1 ≠ .ok ()
        ∧ tracker.config.maxTokens < tracker.usedTokens + usage.total
        ∧ after.usedTokens = tracker.usedTokens)
  := by
  obtain ⟨process, hlook, hproc⟩ := Option.bind_eq_some_iff.mp htrack
  unfold trackTokenUsage
  simp only [hlook, hproc]
  split_ifs with hpos
  · obtain ⟨hconf, hcases⟩ := BudgetTracker.track_of_not_resetDue hdue later usage.total
    use (tracker.track now later usage.total).2
    constructor
    · simp [budgetTracker]
    use hconf
    rcases hres : (tracker.track now later usage.total).1 with e | _
    all_goals simpa [hres] using hcases
  · have hzero : usage.total = 0 := by
      rwa [UInt64.pos_iff_ne_zero, not_not] at hpos
    use tracker, htrack, rfl
    simp [hzero, tracker.within]

/-- The usage of an agent is accounted for exactly unless the number of tokens wraps into the
budget. -/
theorem AgentRegistry.exists_exactUsage_iff_not_wraps {registry : AgentRegistry} {id : AgentId}
    {tracker : BudgetTracker} {now : UInt64} (htracker : registry.budgetTracker id = some tracker)
    (hdue : ¬ tracker.ResetDue now) (later : UInt64) (usage : TokenUsage) :
  (∃ after, (registry.trackTokenUsage now later id usage).2.budgetTracker id = some after
      ∧ ExactUsage tracker usage (registry.trackTokenUsage now later id usage).1 after)
    ↔ ¬ tracker.Wraps usage
  := by
  obtain ⟨after, hafter, hconf, hcases⟩ := trackTokenUsage_of_not_resetDue htracker hdue later usage
  have hlimit := tracker.config.maxTokens.toNat_lt
  have hsum := tracker.toNat_usedTokens_add_total usage
  rw [BudgetTracker.wraps_iff]
  constructor
  · rintro ⟨after', hafter', hexact⟩ ⟨hlarge, hwith⟩
    obtain ⟨hok, -, -⟩ | ⟨-, hexc, -⟩ := hcases
    · have hfits := hexact.accepted_iff.mp hok
      omega
    · rw [UInt64.lt_iff_toNat_lt] at hexc
      omega
  · intro hwraps
    use after, hafter
    obtain ⟨hok, hfits, hcount⟩ | ⟨href, hexc, hcount⟩ := hcases
    · rw [UInt64.le_iff_toNat_le, hsum] at hfits
      have hdem : tracker.demanded usage % 2 ^ 64 = tracker.demanded usage := by omega
      constructor
      · simp only [hok, true_iff]
        omega
      · rw [hcount, hsum, hdem]
        intro _
        rfl
      · exact fun href => absurd hok href
      · rw [hcount, UInt64.le_iff_toNat_le, hsum]
        apply hfits
    · rw [UInt64.lt_iff_toNat_lt, hsum] at hexc
      constructor
      · simp only [href, false_iff]
        have hle := Nat.mod_le (tracker.demanded usage) (2 ^ 64)
        omega
      · exact fun hok => absurd hok href
      · exact fun _ => hcount
      · rw [hcount]
        apply tracker.within

def halfUsedTracker : BudgetTracker where
  config := ⟨100, 0⟩
  usedTokens := 50
  periodStart := 0
  lastResetCheck := 0
  within := by decide

/-- A registry with one agent, which has this budget. -/
def halfUsedRegistry : AgentRegistry :=
  let manifest : AgentManifest :=
    { name := "writer"
      model := "model"
      systemPrompt := .inline "Write."
      capabilities := []
      budgetConfig := some halfUsedTracker.config }
  { AgentRegistry.newWithLimit 100 with
    agents := (∅ : Table _ _).insert ⟨0⟩
      { AgentProcess.new manifest [] 0 with budgetTracker := some halfUsedTracker }
    activeCount := 1 }

/-- Forty tokens are counted exactly. -/
theorem exists_exactUsage_fortyTokens :
  halfUsedRegistry.budgetTracker ⟨0⟩ = some halfUsedTracker ∧ ¬ halfUsedTracker.ResetDue 1
    ∧ ((∃ after, (halfUsedRegistry.trackTokenUsage 1 1 ⟨0⟩ ⟨30, 10⟩).2.budgetTracker ⟨0⟩
          = some after
        ∧ ExactUsage halfUsedTracker ⟨30, 10⟩
            (halfUsedRegistry.trackTokenUsage 1 1 ⟨0⟩ ⟨30, 10⟩).1 after)
      ↔ ¬ halfUsedTracker.Wraps ⟨30, 10⟩)
  := by
  use rfl, by decide
  apply AgentRegistry.exists_exactUsage_iff_not_wraps rfl (by decide)

/-- A completion with 2^64 - 10 input tokens is accepted, and the count is lower by ten
afterwards. -/
theorem not_exactUsage_wrappedTokens :
  ((halfUsedRegistry.trackTokenUsage 1 1 ⟨0⟩ ⟨18446744073709551606, 0⟩).2.budgetTracker
      ⟨0⟩).map BudgetTracker.usedTokens = some 40
    ∧ ¬ ∃ after,
      (halfUsedRegistry.trackTokenUsage 1 1 ⟨0⟩ ⟨18446744073709551606, 0⟩).2.budgetTracker ⟨0⟩
          = some after
        ∧ ExactUsage halfUsedTracker ⟨18446744073709551606, 0⟩
            (halfUsedRegistry.trackTokenUsage 1 1 ⟨0⟩ ⟨18446744073709551606, 0⟩).1 after
  := by
  use by decide
  rintro ⟨after, -, hexact⟩
  have hfits := hexact.accepted_iff.mp rfl
  revert hfits
  decide
