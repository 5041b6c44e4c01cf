import Mathlib.Order.Basic
import AaOS.Lib.Text

/-!
# Token budgets

`aaos-core/src/budget.rs`: a tracker counts the tokens an agent has used in the current
period and refuses usage that would exceed the limit of the period.  The count is never
above the limit, and refused usage is not counted.
-/

/-- The tokens of one or more completions. -/
structure TokenUsage where
  inputTokens : UInt64 := 0
  outputTokens : UInt64 := 0
deriving DecidableEq, Repr

namespace TokenUsage

/-- The number of tokens. -/
def total (usage : TokenUsage) : UInt64 := usage.inputTokens + usage.outputTokens

def accumulate (cumulative usage : TokenUsage) : TokenUsage where
  inputTokens := cumulative.inputTokens + usage.inputTokens
  outputTokens := cumulative.outputTokens + usage.outputTokens

end TokenUsage

/-- The limit of a budget and the length of its periods, where `0` stands for a single
period. -/
structure BudgetConfig where
  maxTokens : UInt64 := 1000000
  resetPeriodSeconds : UInt64 := 3600
deriving DecidableEq, Repr

structure BudgetExceeded where
  used : UInt64
  limit : UInt64
  requested : UInt64
deriving DecidableEq, Repr

/-- The text of the error. -/
def BudgetExceeded.text (e : BudgetExceeded) : Text :=
  "budget exceeded: used " ++ (toString e.used).toList ++ "/"
    ++ (toString e.limit).toList ++ " tokens, requested "
    ++ (toString e.requested).toList ++ " more"

/-- The tokens used in the current period, which are within the limit. -/
structure BudgetTracker where
  config : BudgetConfig
  usedTokens : UInt64
  periodStart : UInt64
  lastResetCheck : UInt64
  within : usedTokens ≤ config.maxTokens

namespace BudgetTracker

/-- The tracker of an agent that starts now. -/
def new (config : BudgetConfig) (now : UInt64) : BudgetTracker where
  config := config
  usedTokens := 0
  periodStart := now
  lastResetCheck := now
  within := by simp [UInt64.le_iff_toNat_le]

def reset (tracker : BudgetTracker) (now : UInt64) : BudgetTracker := new tracker.config now

/-- Start a new period if the current one is over; the check is made at most once per second. -/
def maybeReset (tracker : BudgetTracker) (now later : UInt64) : BudgetTracker :=
  if tracker.config.resetPeriodSeconds = 0 then tracker
  else if now.toNat - tracker.lastResetCheck.toNat < 1 then tracker
  else if tracker.config.resetPeriodSeconds.toNat ≤ now.toNat - tracker.periodStart.toNat then
    tracker.reset later
  else { tracker with lastResetCheck := now }

def track (tracker : BudgetTracker) (now later tokens : UInt64) :
    Except BudgetExceeded Unit × BudgetTracker :=
  let current := tracker.maybeReset now later
  let newTotal := current.usedTokens + tokens
  if h : current.config.maxTokens < newTotal then
    (.error ⟨current.usedTokens, current.config.maxTokens, tokens⟩, current)
  else (.ok (), { current with usedTokens := newTotal, within := UInt64.not_lt.mp h })

@[simp]
theorem maybeReset_config (tracker : BudgetTracker) (now later : UInt64) :
  (tracker.maybeReset now later).config = tracker.config
  := by
  unfold maybeReset reset
  split_ifs <;> rfl

end BudgetTracker
