import Mathlib.Algebra.Order.BigOperators.Group.List
import Mathlib.Algebra.Order.Group.Nat
import AaOS.Core.Budget
import AaOS.Lib.Pool

/-!
# Budgets under concurrent calls

A tracker of `aaos-core/src/budget.rs` is shared by any number of calls of `track`; each load,
store and compare-exchange is one step.  The accepted amounts and the periods are recorded.  An
amount that is accepted between the claim of a reset and its stores is erased by them, so the
amounts of a period may exceed the limit; they do not in runs in which no call overlaps a reset and
no sum overflows.
-/

open List

structure AcceptedAmount where
  reading : UInt64
  tokens : UInt64

/-- The start of a period, and the number of amounts that were accepted before its reset was
claimed. -/
structure BudgetPeriod where
  start : UInt64
  mark : Nat

/-- The words of a tracker, and what has happened to it; the latest period comes first. -/
structure SharedBudget where
  config : BudgetConfig
  usedTokens : UInt64
  periodStart : UInt64
  lastResetCheck : UInt64
  clock : UInt64
  accepted : List AcceptedAmount
  periods : List BudgetPeriod
  resetting : Bool

/-- A call of `track`, with what it has read.  The flag of a claim says whether the period
was over. -/
inductive TrackCall where
  | track (tokens : UInt64)
  | checking (tokens now : UInt64)
  | claiming (tokens now last : UInt64)
  | claimed (tokens now : UInt64) (mark : Nat) (due : Bool)
  | resetting (tokens now : UInt64) (mark : Nat)
  | clearing (tokens now later : UInt64) (mark : Nat)
  | opening (tokens now later : UInt64) (mark : Nat)
  | closing (tokens now later : UInt64)
  | loading (tokens now : UInt64)
  | adding (tokens now current : UInt64)

namespace SharedBudget

/-- A tracker that is created now. -/
def new (config : BudgetConfig) (now : UInt64) : SharedBudget where
  config := config
  usedTokens := 0
  periodStart := now
  lastResetCheck := now
  clock := now
  accepted := []
  periods := [⟨now, 0⟩]
  resetting := false

def due (s : SharedBudget) (now : UInt64) : Bool :=
  s.config.resetPeriodSeconds.toNat ≤ now.toNat - s.periodStart.toNat

/-- The time lies in the period. -/
def inPeriod (s : SharedBudget) (start now : UInt64) : Bool :=
  start.toNat ≤ now.toNat && now.toNat < start.toNat + s.config.resetPeriodSeconds.toNat

def sum (amounts : List AcceptedAmount) : Nat := (amounts.map (·.tokens.toNat)).sum

def spent (s : SharedBudget) (period : BudgetPeriod) : Nat :=
  sum ((s.accepted.drop period.mark).filter (fun amount => s.inPeriod period.start amount.reading))

/-- In every period the accepted amounts are within the limit. -/
def WithinLimit (s : SharedBudget) : Prop :=
  ∀ period ∈ s.periods, s.spent period ≤ s.config.maxTokens.toNat

end SharedBudget

namespace TrackCall

/-- One atomic step of a call. -/
inductive Move (s : SharedBudget) : TrackCall → SharedBudget → Option TrackCall → Prop
  | skipReset (tokens) (hperiod : s.config.resetPeriodSeconds = 0) :
      Move s (track tokens) s (some (loading tokens s.clock))
  | readClock (tokens) {now} (hperiod : s.config.resetPeriodSeconds ≠ 0) (hnow : s.clock ≤ now) :
      Move s (track tokens) { s with clock := now } (some (checking tokens now))
  | checkedBefore {tokens} {now : UInt64} (hcheck : now.toNat - s.lastResetCheck.toNat < 1) :
      Move s (checking tokens now) s (some (loading tokens now))
  | loadCheck {tokens} {now : UInt64} (hcheck : ¬ now.toNat - s.lastResetCheck.toNat < 1) :
      Move s (checking tokens now) s (some (claiming tokens now s.lastResetCheck))
  | claimFails (tokens now last) :
      Move s (claiming tokens now last) s (some (checking tokens now))
  | claim (tokens now) :
      Move s (claiming tokens now s.lastResetCheck)
        { s with lastResetCheck := now, resetting := s.resetting || s.due now }
        (some (claimed tokens now s.accepted.length (s.due now)))
  | periodGoesOn {tokens now} (mark due) (hdue : s.due now = false) :
      Move s (claimed tokens now mark due) s (some (loading tokens now))
  | periodIsOver {tokens now} (mark due) (hdue : s.due now = true) :
      Move s (claimed tokens now mark due) s (some (resetting tokens now mark))
  | readLater (tokens now mark) {later} (hlater : s.clock ≤ later) :
      Move s (resetting tokens now mark) { s with clock := later }
        (some (clearing tokens now later mark))
  | clear (tokens now later mark) :
      Move s (clearing tokens now later mark) { s with usedTokens := 0 }
        (some (opening tokens now later mark))
  | open (tokens now later mark) :
      Move s (opening tokens now later mark)
        { s with periodStart := later, periods := ⟨later, mark⟩ :: s.periods }
        (some (closing tokens now later))
  | close (tokens now later) :
      Move s (closing tokens now later) { s with lastResetCheck := later, resetting := false }
        (some (loading tokens now))
  | load (tokens now) :
      Move s (loading tokens now) s (some (adding tokens now s.usedTokens))
  | refuse {tokens now current} (hlimit : s.config.maxTokens < current + tokens) :
      Move s (adding tokens now current) s none
  | addFails {tokens now current} (hlimit : ¬ s.config.maxTokens < current + tokens) :
      Move s (adding tokens now current) s (some (adding tokens now s.usedTokens))
  | add {tokens now} (hlimit : ¬ s.config.maxTokens < s.usedTokens + tokens) :
      Move s (adding tokens now s.usedTokens)
        { s with
          usedTokens := s.usedTokens + tokens
          accepted := s.accepted ++ [⟨now, tokens⟩] }
        none

def hasRead : TrackCall → Bool
  | track _ => false
  | _ => true

def inReset : TrackCall → Bool
  | claimed _ _ _ due => due
  | resetting .. | clearing .. | opening .. | closing .. => true
  | _ => false

/-- The call neither begins during a reset nor claims one while another call has begun, and its sum
does not overflow. -/
def Careful (s : SharedBudget) (others : Multiset TrackCall) : TrackCall → Prop
  | track _ => s.resetting = false
  | claiming _ now last =>
    s.lastResetCheck = last → s.due now = true → ∀ other ∈ others, other.hasRead = false
  | adding tokens _ current => current.toNat + tokens.toNat < 2 ^ 64
  | _ => True

/-- All interleavings of calls. -/
def interleaved : PoolSystem SharedBudget TrackCall where
  Start _ _ call := ∃ tokens, call = track tokens
  Move s _ call s' call' := Move s call s' call'

/-- The interleavings in which every step is careful. -/
def careful : PoolSystem SharedBudget TrackCall where
  Start _ _ call := ∃ tokens, call = track tokens
  Move s others call s' call' := Move s call s' call' ∧ Careful s others call

end TrackCall

/-! ### What holds between the steps -/

namespace SharedBudget

variable (s : SharedBudget)

def Past (now : UInt64) (period : BudgetPeriod) : Prop :=
  period.start.toNat + s.config.resetPeriodSeconds.toNat ≤ now.toNat

/-- Unless a reset is in progress, the count is the sum of the amounts since the last reset was
claimed. -/
structure Current (period : BudgetPeriod) : Prop where
  start : period.start = s.periodStart
  mark_le : period.mark ≤ s.accepted.length
  sum_le : sum (s.accepted.drop period.mark) ≤ s.config.maxTokens.toNat
  settled : s.resetting = false → s.usedTokens.toNat = sum (s.accepted.drop period.mark)

/-- A period that is over, and was within the limit. -/
structure Old (period : BudgetPeriod) : Prop where
  past : s.Past s.clock period
  mark_le : period.mark ≤ s.accepted.length
  spent_le : s.spent period ≤ s.config.maxTokens.toNat

/-- The latest period is counted, and the earlier ones are over. -/
structure Balanced : Prop where
  periodic : s.config.resetPeriodSeconds ≠ 0
  periods : ∃ current old, s.periods = current :: old ∧ s.Current current
    ∧ ∀ period ∈ old, s.Old period

/-- A time that was read, after the earlier periods were over. -/
structure Read (now : UInt64) : Prop where
  le_clock : now ≤ s.clock
  past : ∀ period ∈ s.periods.tail, s.Past now period

/-- A reset with the given time is in progress, and no amount has been accepted since it was
claimed. -/
structure Resets (now : UInt64) (mark : Nat) : Prop where
  read : s.Read now
  resetting : s.resetting = true
  due : s.due now = true
  mark_eq : mark = s.accepted.length

/-- What holds of the words at each point of a call. -/
def Each : TrackCall → Prop
  | .track _ => True
  | .checking _ now | .claiming _ now _ | .loading _ now | .adding _ now _ =>
    s.Read now ∧ s.resetting = false
  | .claimed _ now mark due =>
    (due = true → s.Resets now mark)
      ∧ (due = false → s.Read now ∧ s.resetting = false ∧ s.due now = false)
  | .resetting _ now mark | .clearing _ now _ mark => s.Resets now mark
  | .opening _ now _ mark => s.Resets now mark ∧ s.usedTokens = 0
  | .closing _ now _ =>
    s.Read now ∧ s.resetting = true ∧ s.usedTokens = 0
      ∧ ∀ period ∈ s.periods.head?, period.mark = s.accepted.length

end SharedBudget

/-- A call that resets the words is the only one that has read the clock. -/
def TrackCall.Apart (call other : TrackCall) : Prop :=
  ¬ (call.inReset = true ∧ other.hasRead = true) ∧ ¬ (other.inReset = true ∧ call.hasRead = true)

section Steps

open SharedBudget TrackCall

variable {s s' : SharedBudget} {others : Multiset TrackCall} {call : TrackCall}
  {call' : Option TrackCall}

theorem SharedBudget.sum_append (before after : List AcceptedAmount) :
  sum (before ++ after) = sum before + sum after
  := by
  simp [sum]

theorem SharedBudget.sum_filter_le (p : AcceptedAmount → Bool) (amounts : List AcceptedAmount) :
  sum (amounts.filter p) ≤ sum amounts
  := by
  apply List.Sublist.sum_le_sum
  · apply List.Sublist.map
    apply filter_sublist
  · simp

theorem SharedBudget.Current.spent_le {period : BudgetPeriod} (hcur : s.Current period) :
  s.spent period ≤ s.config.maxTokens.toNat
  := by
  apply le_trans (sum_filter_le _ _) hcur.sum_le

theorem SharedBudget.Balanced.withinLimit (hbal : s.Balanced) :
  s.WithinLimit
  := by
  obtain ⟨-, current, old, hperiod, hcur, hold⟩ := hbal
  intro period hper
  rw [hperiod] at hper
  obtain rfl | hper := mem_cons.mp hper
  · apply hcur.spent_le
  · apply (hold period hper).spent_le

theorem SharedBudget.past_of_due {now : UInt64} {period : BudgetPeriod}
    (hper : s.config.resetPeriodSeconds ≠ 0) (hstart : period.start = s.periodStart)
    (hdue : s.due now = true) :
  s.Past now period
  := by
  have hpos : 0 < s.config.resetPeriodSeconds.toNat := by
    apply Nat.pos_of_ne_zero
    intro hzero
    apply hper
    apply UInt64.toNat_inj.mp hzero
  simp only [due, decide_eq_true_eq] at hdue
  unfold Past
  rw [hstart]
  omega

theorem SharedBudget.Each.resetting_eq (heach : s.Each call) (hreset : call.inReset = true) :
  s.resetting = true
  := by
  cases call with
  | claimed tokens now mark due => apply (heach.1 hreset).resetting
  | resetting tokens now mark => apply heach.resetting
  | clearing tokens now later mark => apply heach.resetting
  | opening tokens now later mark => apply heach.1.resetting
  | closing tokens now later => apply heach.2.1
  | _ => cases hreset

variable {other : TrackCall}

theorem TrackCall.hasRead_of_inReset (hmove : Move s call s' call') (hcar : Careful s others call)
    (hbal : s.Balanced) (hother : s.Each other) (hreset : other.inReset = true) :
  call.hasRead = true
  := by
  have hres := hother.resetting_eq hreset
  cases hmove with
  | skipReset tokens hper => apply absurd hper hbal.periodic
  | readClock tokens hper hnow =>
    rw [Careful, hres] at hcar
    cases hcar
  | _ => rfl

/-! ### The words after each kind of step -/

namespace SharedBudget

/-- The periods are the same, and the clock goes on. -/
structure Continues (s s' : SharedBudget) : Prop where
  config : s'.config = s.config
  periods : s'.periods = s.periods
  start : s'.periodStart = s.periodStart
  clock : s.clock ≤ s'.clock

variable {now : UInt64}

theorem Read.continues (hread : s.Read now) (hcon : Continues s s') :
  s'.Read now
  := by
  constructor
  case le_clock => apply UInt64.le_trans hread.le_clock hcon.clock
  case past =>
    unfold Past
    rw [hcon.periods, hcon.config]
    apply hread.past

theorem Continues.due_eq (hcon : Continues s s') (now : UInt64) :
  s'.due now = s.due now
  := by
  unfold due
  rw [hcon.config, hcon.start]

theorem Balanced.read (hbal : s.Balanced) :
  s.Read s.clock
  := by
  obtain ⟨-, current, old, hperiod, -, hold⟩ := hbal
  constructor
  case le_clock => apply UInt64.le_refl
  case past =>
    rw [hperiod]
    intro period hper
    apply (hold period hper).past

/-- A step that touches only the other words keeps the balance, if the count is right without a
reset. -/
theorem Balanced.continues (hbal : s.Balanced) (hcon : Continues s s')
    (hacc : s'.accepted = s.accepted)
    (hset : ∀ period ∈ s.periods.head?, s.Current period → s'.resetting = false →
      s'.usedTokens.toNat = sum (s.accepted.drop period.mark)) :
  s'.Balanced
  := by
  obtain ⟨hconf, hper', hstart, hclock⟩ := hcon
  obtain ⟨hperiodic, current, old, hper, hcur, hold⟩ := hbal
  rw [← hconf] at hperiodic
  use hperiodic, current, old, hper'.trans hper
  constructor
  · constructor
    case start => rw [hstart, hcur.start]
    case mark_le =>
      rw [hacc]
      apply hcur.mark_le
    case sum_le =>
      rw [hacc, hconf]
      apply hcur.sum_le
    case settled =>
      rw [hacc]
      apply hset current _ hcur
      simp [hper]
  · intro period hperiod
    obtain ⟨hpast, hmark, hspent⟩ := hold period hperiod
    constructor
    case past =>
      unfold Past at hpast ⊢
      rw [hconf]
      apply le_trans hpast (UInt64.le_iff_toNat_le.mp hclock)
    case mark_le =>
      rw [hacc]
      apply hmark
    case spent_le =>
      unfold spent inPeriod at hspent ⊢
      rw [hacc, hconf]
      apply hspent

theorem Balanced.tick (hbal : s.Balanced) (hnow : s.clock ≤ now) :
  Balanced { s with clock := now }
  := by
  refine hbal.continues ⟨rfl, rfl, rfl, hnow⟩ rfl ?_
  intro period _ hcur
  apply hcur.settled

theorem Balanced.claim (due : Bool) (hbal : s.Balanced) :
  Balanced { s with lastResetCheck := now, resetting := s.resetting || due }
  := by
  refine hbal.continues ⟨rfl, rfl, rfl, UInt64.le_refl _⟩ rfl ?_
  intro period _ hcur hfalse
  apply hcur.settled (Bool.or_eq_false_iff.mp hfalse).1

theorem Balanced.clear (hbal : s.Balanced) (hres : s.resetting = true) :
  Balanced { s with usedTokens := 0 }
  := by
  refine hbal.continues ⟨rfl, rfl, rfl, UInt64.le_refl _⟩ rfl ?_
  intro period _ hcur hfalse
  rw [hres] at hfalse
  cases hfalse

theorem Balanced.close {later : UInt64} (hbal : s.Balanced) (hused : s.usedTokens = 0)
    (hmark : ∀ period ∈ s.periods.head?, period.mark = s.accepted.length) :
  Balanced { s with lastResetCheck := later, resetting := false }
  := by
  refine hbal.continues ⟨rfl, rfl, rfl, UInt64.le_refl _⟩ rfl ?_
  intro period hper _ _
  simp [hused, hmark period hper, sum]

theorem Balanced.open {later : UInt64} {mark : Nat} (hbal : s.Balanced)
    (hreset : s.Resets now mark) :
  Balanced { s with periodStart := later, periods := ⟨later, mark⟩ :: s.periods }
  := by
  obtain ⟨hperiod, current, old, hperiods, hcur, hold⟩ := hbal
  obtain ⟨hread, hres, hdue, rfl⟩ := hreset
  use hperiod, ⟨later, s.accepted.length⟩, s.periods, rfl
  constructor
  · constructor
    case start => rfl
    case mark_le => apply le_refl
    case sum_le => simp [sum]
    case settled =>
      intro hfalse
      rw [hres] at hfalse
      cases hfalse
  · intro period hper
    rw [hperiods] at hper
    obtain rfl | hper := mem_cons.mp hper
    · have hpast := past_of_due hperiod hcur.start hdue
      have hclock := UInt64.le_iff_toNat_le.mp hread.le_clock
      exact ⟨le_trans hpast hclock, hcur.mark_le, hcur.spent_le⟩
    · obtain ⟨hpast, hmark, hspent⟩ := hold period hper
      exact ⟨hpast, hmark, hspent⟩

theorem spent_append {tokens : UInt64} {period : BudgetPeriod}
    (hmark : period.mark ≤ s.accepted.length) (hpast : s.Past now period) (used : UInt64) :
  spent { s with usedTokens := used, accepted := s.accepted ++ [⟨now, tokens⟩] } period
    = s.spent period
  := by
  have hout : s.inPeriod period.start now = false := by
    simp only [inPeriod, Bool.and_eq_false_iff, decide_eq_false_iff_not, not_lt]
    right
    apply hpast
  unfold spent
  rw [drop_append_of_le_length hmark, filter_append]
  change sum (_ ++ [(⟨now, tokens⟩ : AcceptedAmount)].filter
    (fun amount => s.inPeriod period.start amount.reading)) = _
  rw [filter_cons_of_neg (by simp [hout]), filter_nil, append_nil]
  rfl

theorem Balanced.add {tokens : UInt64} (hbal : s.Balanced) (hread : s.Read now)
    (hres : s.resetting = false) (hlimit : ¬ s.config.maxTokens < s.usedTokens + tokens)
    (hover : s.usedTokens.toNat + tokens.toNat < 2 ^ 64) :
  Balanced { s with
    usedTokens := s.usedTokens + tokens
    accepted := s.accepted ++ [⟨now, tokens⟩] }
  := by
  obtain ⟨hperiodic, current, old, hperiod, hcur, hold⟩ := hbal
  have htotal : (s.usedTokens + tokens).toNat = s.usedTokens.toNat + tokens.toNat := by
    rw [UInt64.toNat_add, Nat.mod_eq_of_lt hover]
  have hsum : sum ((s.accepted ++ [AcceptedAmount.mk now tokens]).drop current.mark)
      = (s.usedTokens + tokens).toNat := by
    rw [drop_append_of_le_length hcur.mark_le, sum_append, htotal, hcur.settled hres]
    simp [sum]
  use hperiodic, current, old, hperiod
  constructor
  · constructor
    case start => apply hcur.start
    case mark_le =>
      apply le_trans hcur.mark_le
      simp
    case sum_le =>
      apply le_trans (le_of_eq hsum)
      apply UInt64.le_iff_toNat_le.mp (UInt64.not_lt.mp hlimit)
    case settled =>
      intro _
      apply hsum.symm
  · intro period hper
    obtain ⟨hpast, hmark, hspent⟩ := hold period hper
    constructor
    case past => apply hpast
    case mark_le =>
      apply le_trans hmark
      simp
    case spent_le =>
      rw [spent_append hmark]
      · apply hspent
      · apply hread.past
        rw [hperiod]
        apply hper

end SharedBudget

/-! ### What a careful step keeps -/

theorem TrackCall.Move.balanced (hmove : Move s call s' call') (hcar : Careful s others call)
    (hbal : s.Balanced) (heach : s.Each call) :
  s'.Balanced
  := by
  cases hmove with
  | readClock tokens hper hnow => apply hbal.tick hnow
  | claim tokens now => apply hbal.claim
  | readLater tokens now mark hlater => apply hbal.tick hlater
  | clear tokens now later mark => apply hbal.clear heach.resetting
  | «open» tokens now later mark => apply hbal.open heach.1
  | close tokens now later => apply hbal.close heach.2.2.1 heach.2.2.2
  | add hlimit => apply hbal.add heach.1 heach.2 hlimit hcar
  | _ => apply hbal

theorem TrackCall.Move.each {next : TrackCall} (hmove : Move s call s' (some next))
    (hcar : Careful s others call) (hbal : s.Balanced) (heach : s.Each call) :
  s'.Each next
  := by
  cases hmove with
  | skipReset tokens hper => apply absurd hper hbal.periodic
  | readClock tokens hper hnow => exact ⟨(hbal.tick hnow).read, hcar⟩
  | checkedBefore hcheck | loadCheck hcheck | claimFails tokens now last | load tokens now
  | addFails hlimit => apply heach
  | claim tokens now =>
    obtain ⟨hread, hres⟩ := heach
    have hread' :
        Read { s with lastResetCheck := now, resetting := s.resetting || s.due now } now :=
      hread.continues ⟨rfl, rfl, rfl, UInt64.le_refl _⟩
    constructor
    · intro hdue
      exact ⟨hread', by simp [hdue], hdue, rfl⟩
    · intro hdue
      exact ⟨hread', by simp [hdue, hres], hdue⟩
  | periodGoesOn mark due hdue =>
    cases due with
    | false =>
      obtain ⟨hread, hres, -⟩ := heach.2 rfl
      exact ⟨hread, hres⟩
    | true =>
      rw [(heach.1 rfl).due] at hdue
      cases hdue
  | periodIsOver mark due hdue =>
    cases due with
    | false =>
      rw [(heach.2 rfl).2.2] at hdue
      cases hdue
    | true => apply heach.1 rfl
  | readLater tokens now mark hlater =>
    obtain ⟨hread, hres, hdue, hmark⟩ := heach
    exact ⟨hread.continues ⟨rfl, rfl, rfl, hlater⟩, hres, hdue, hmark⟩
  | clear tokens now later mark =>
    obtain ⟨hread, hres, hdue, hmark⟩ := heach
    exact ⟨⟨hread.continues ⟨rfl, rfl, rfl, UInt64.le_refl _⟩, hres, hdue, hmark⟩, rfl⟩
  | «open» tokens now later mark =>
    obtain ⟨⟨hread, hres, hdue, rfl⟩, hused⟩ := heach
    refine ⟨⟨hread.le_clock, ?_⟩, hres, hused, ?_⟩
    · obtain ⟨hperiodic, current, old, hperiod, hcur, -⟩ := hbal
      intro period hper
      rw [tail_cons, hperiod] at hper
      obtain rfl | hper := mem_cons.mp hper
      · apply past_of_due hperiodic hcur.start hdue
      · apply hread.past
        rw [hperiod]
        apply hper
    · simp
  | close tokens now later =>
    obtain ⟨hread, -⟩ := heach
    exact ⟨hread.continues ⟨rfl, rfl, rfl, UInt64.le_refl _⟩, rfl⟩

/-- A step beside a call when neither resets the words. -/
theorem TrackCall.Move.continues (hmove : Move s call s' call') (hcar : Careful s others call)
    (hmem : other ∈ others) (hread : other.hasRead = true) (hreset : call.inReset = false) :
  Continues s s' ∧ s'.resetting = s.resetting
  := by
  cases hmove with
  | readClock tokens hper hnow => exact ⟨⟨rfl, rfl, rfl, hnow⟩, rfl⟩
  | claim tokens now =>
    have hdue : s.due now = false := by
      rw [Bool.eq_false_iff]
      intro hdue
      have hunr := hcar rfl hdue other hmem
      rw [hread] at hunr
      cases hunr
    exact ⟨⟨rfl, rfl, rfl, UInt64.le_refl _⟩, by simp [hdue]⟩
  | readLater | clear | «open» | close => cases hreset
  | _ => exact ⟨⟨rfl, rfl, rfl, UInt64.le_refl _⟩, rfl⟩

theorem SharedBudget.Each.continues (heach : s.Each call) (hreset : call.inReset = false)
    (hcon : Continues s s') (hres : s'.resetting = s.resetting) :
  s'.Each call
  := by
  cases call with
  | track tokens => trivial
  | claimed tokens now mark due =>
    cases hreset
    obtain ⟨hread, hfalse, hdue⟩ := heach.2 rfl
    constructor
    · intro htrue
      cases htrue
    · intro _
      have hdue' : s'.due now = false := (hcon.due_eq now).trans hdue
      exact ⟨hread.continues hcon, hres.trans hfalse, hdue'⟩
  | resetting | clearing | opening | closing => cases hreset
  | _ =>
    obtain ⟨hread, hfalse⟩ := heach
    exact ⟨hread.continues hcon, hres.trans hfalse⟩

theorem TrackCall.Move.inReset {next : TrackCall} (hmove : Move s call s' (some next))
    (hcar : Careful s others call) (heach : s.Each call) (hreset : next.inReset = true) :
  call.inReset = true ∨ ∀ other ∈ others, other.hasRead = false
  := by
  cases hmove with
  | claim tokens now =>
    right
    apply hcar rfl hreset
  | periodIsOver mark due hdue =>
    left
    cases due with
    | false =>
      rw [(heach.2 rfl).2.2] at hdue
      cases hdue
    | true => rfl
  | readLater | clear | «open» => simp [TrackCall.inReset]
  | _ => cases hreset

theorem TrackCall.Apart.inReset_eq_false (hapart : Apart call other) (hmove : Move s call s' call')
    (hcar : Careful s others call) (hbal : s.Balanced) (hother : s.Each other) :
  other.inReset = false
  := by
  rw [Bool.eq_false_iff]
  intro hreset
  apply hapart.2
  exact ⟨hreset, hasRead_of_inReset hmove hcar hbal hother hreset⟩

theorem TrackCall.careful_keeps :
  careful.Keeps Balanced Each Apart
  := by
  constructor
  case symm =>
    rintro call other ⟨hleft, hright⟩
    exact ⟨hright, hleft⟩
  case start =>
    rintro s others _ ⟨tokens, rfl⟩ hbal hoths
    constructor
    · trivial
    · intro other hother
      simp [Apart, TrackCall.inReset, TrackCall.hasRead]
  case shared =>
    rintro s others call s' call' ⟨hmove, hcar⟩ hbal heach -
    apply hmove.balanced hcar hbal heach
  case each =>
    rintro s others call s' next ⟨hmove, hcar⟩ hbal heach -
    apply hmove.each hcar hbal heach
  case others =>
    rintro s others call s' call' ⟨hmove, hcar⟩ hbal heach other hmem hother hapart
    have hreset := hapart.inReset_eq_false hmove hcar hbal hother
    rcases hread : other.hasRead with - | -
    · cases other with
      | track tokens => trivial
      | _ => cases hread
    · have hcall : call.inReset = false := by
        rw [Bool.eq_false_iff]
        intro hcall
        apply hapart.1 ⟨hcall, hread⟩
      obtain ⟨hcon, hres⟩ := hmove.continues hcar hmem hread hcall
      apply hother.continues hreset hcon hres
  case apart =>
    rintro s others call s' next ⟨hmove, hcar⟩ hbal heach other hmem hother hapart
    have hreset := hapart.inReset_eq_false hmove hcar hbal hother
    constructor
    · rintro ⟨hnext, hread⟩
      obtain hcall | hunr := hmove.inReset hcar heach hnext
      · apply hapart.1 ⟨hcall, hread⟩
      · rw [hunr other hmem] at hread
        cases hread
    · rintro ⟨htrue, -⟩
      rw [hreset] at htrue
      cases htrue

end Steps

/-! ### The limit of a period -/

theorem SharedBudget.balanced_new {config : BudgetConfig} (now : UInt64)
    (hper : config.resetPeriodSeconds ≠ 0) :
  (new config now).Balanced
  := by
  use hper, ⟨now, 0⟩, [], rfl
  constructor
  · constructor
    case start => rfl
    case mark_le => simp
    case sum_le => simp [new, sum]
    case settled => simp [new, sum]
  · simp

/-- In every run in which no call overlaps a reset and no sum overflows, the amounts of a period are
within the limit. -/
theorem TrackCall.withinLimit_of_careful {config : BudgetConfig} {now : UInt64}
    {pool : Pool SharedBudget TrackCall} (hperiodic : config.resetPeriodSeconds ≠ 0)
    (hreaches : careful.Reaches ⟨.new config now, 0⟩ pool) :
  pool.shared.WithinLimit
  := by
  have hholds := careful_keeps.holds_of_reaches hreaches
    ⟨SharedBudget.balanced_new now hperiodic, by simp, by simp⟩
  apply hholds.shared.withinLimit

/-- The words of a tracker for ten tokens a second, when no reset is in progress. -/
def SharedBudget.tens (usedTokens time : UInt64) (accepted : List AcceptedAmount)
    (periods : List BudgetPeriod) : SharedBudget where
  config := ⟨10, 1⟩
  usedTokens := usedTokens
  periodStart := time
  lastResetCheck := time
  clock := time
  accepted := accepted
  periods := periods
  resetting := false

section Run

open SharedBudget TrackCall Relation.ReflTransGen

/-- An amount in the first period. -/
theorem reaches_first :
  careful.Reaches ⟨.new ⟨10, 1⟩ 0, 0⟩ ⟨tens 10 0 [⟨0, 10⟩] [⟨0, 0⟩], 0⟩
  := by
  have hsum : (0 : UInt64).toNat + (10 : UInt64).toNat < 2 ^ 64 := by decide
  apply head (.start ⟨10, rfl⟩)
  apply head (.goesOn ⟨.readClock 10 (by decide) (UInt64.le_refl 0), rfl⟩)
  apply head (.goesOn ⟨.checkedBefore (by decide), trivial⟩)
  apply head (.goesOn ⟨.load 10 0, trivial⟩)
  apply single (.ends ⟨.add (by decide), hsum⟩)

/-- A call resets the words beside another one that has not yet read the clock. -/
theorem reaches_reset :
  careful.Reaches ⟨tens 10 0 [⟨0, 10⟩] [⟨0, 0⟩], 0⟩
    ⟨tens 0 1 [⟨0, 10⟩] [⟨1, 1⟩, ⟨0, 0⟩], adding 6 1 0 ::ₘ track 4 ::ₘ 0⟩
  := by
  have hlater : (0 : UInt64) ≤ 1 := by decide
  have hcar : Careful (tens 10 0 [⟨0, 10⟩] [⟨0, 0⟩]) (track 4 ::ₘ 0) (claiming 6 1 0) := by
    intro _ _ other hother
    rw [Multiset.mem_singleton.mp hother]
    rfl
  apply head (.start ⟨4, rfl⟩)
  apply head (.start ⟨6, rfl⟩)
  apply head (.goesOn ⟨.readClock 6 (by decide) hlater, rfl⟩)
  apply head (.goesOn ⟨.loadCheck (by decide), trivial⟩)
  apply head (.goesOn ⟨.claim 6 1, hcar⟩)
  apply head (.goesOn ⟨.periodIsOver 1 true (by decide), trivial⟩)
  apply head (.goesOn ⟨.readLater 6 1 1 (UInt64.le_refl 1), trivial⟩)
  apply head (.goesOn ⟨.clear 6 1 1 1, trivial⟩)
  apply head (.goesOn ⟨.open 6 1 1 1, trivial⟩)
  apply head (.goesOn ⟨.close 6 1 1, trivial⟩)
  apply single (.goesOn ⟨.load 6 1, trivial⟩)

/-- The other call is accepted first, so that the exchange of the one that has reset the words fails
once. -/
theorem reaches_both :
  careful.Reaches
    ⟨tens 0 1 [⟨0, 10⟩] [⟨1, 1⟩, ⟨0, 0⟩], track 4 ::ₘ adding 6 1 0 ::ₘ 0⟩
    ⟨tens 10 1 [⟨0, 10⟩, ⟨1, 4⟩, ⟨1, 6⟩] [⟨1, 1⟩, ⟨0, 0⟩], 0⟩
  := by
  have hfirst : (0 : UInt64).toNat + (4 : UInt64).toNat < 2 ^ 64 := by decide
  have hfails : (0 : UInt64).toNat + (6 : UInt64).toNat < 2 ^ 64 := by decide
  have hsec : (4 : UInt64).toNat + (6 : UInt64).toNat < 2 ^ 64 := by decide
  apply head (.goesOn ⟨.readClock 4 (by decide) (UInt64.le_refl 1), rfl⟩)
  apply head (.goesOn ⟨.checkedBefore (by decide), trivial⟩)
  apply head (.goesOn ⟨.load 4 1, trivial⟩)
  apply head (.ends ⟨.add (by decide), hfirst⟩)
  apply head (.goesOn ⟨.addFails (by decide), hfails⟩)
  apply single (.ends ⟨.add (by decide), hsec⟩)

/-- Two calls and a reset that is claimed beside one of them. -/
theorem TrackCall.withinLimit_of_careful_reset :
  ∃ pool, careful.Reaches ⟨.new ⟨10, 1⟩ 0, 0⟩ pool
    ∧ pool.shared.accepted = [⟨0, 10⟩, ⟨1, 4⟩, ⟨1, 6⟩] ∧ pool.shared.periods = [⟨1, 1⟩, ⟨0, 0⟩]
    ∧ pool.shared.WithinLimit
  := by
  have hreset := reaches_reset
  rw [Multiset.cons_swap] at hreset
  have hreach := (reaches_first.trans hreset).trans reaches_both
  exact ⟨_, hreach, rfl, rfl, withinLimit_of_careful (by decide) hreach⟩

/-- A call is accepted between the claim of a reset and its stores, and then the first call is
accepted too. -/
theorem TrackCall.not_withinLimit_erased :
  ∃ pool, interleaved.Reaches ⟨.new ⟨10, 1⟩ 0, 0⟩ pool ∧ ¬ pool.shared.WithinLimit
  := by
  have hreach : interleaved.Reaches ⟨.new ⟨10, 1⟩ 0, 0⟩ ⟨{ SharedBudget.new ⟨10, 1⟩ 0 with
      usedTokens := 10, periodStart := 1, lastResetCheck := 1, clock := 1
      accepted := [⟨1, 10⟩, ⟨1, 10⟩], periods := [⟨1, 0⟩, ⟨0, 0⟩] }, 0⟩ := by
    have hlater : (0 : UInt64) ≤ 1 := by decide
    apply head (.start ⟨10, rfl⟩)
    apply head (.goesOn (.readClock 10 (by decide) hlater))
    apply head (.goesOn (.loadCheck (by decide)))
    apply head (.goesOn (.claim 10 1))
    apply head (.start ⟨10, rfl⟩)
    apply head (.goesOn (.readClock 10 (by decide) (UInt64.le_refl 1)))
    apply head (.goesOn (.checkedBefore (by decide)))
    apply head (.goesOn (.load 10 1))
    apply head (.ends (.add (by decide)))
    apply head (.goesOn (.periodIsOver 0 true (by decide)))
    apply head (.goesOn (.readLater 10 1 0 (UInt64.le_refl 1)))
    apply head (.goesOn (.clear 10 1 1 0))
    apply head (.goesOn (.open 10 1 1 0))
    apply head (.goesOn (.close 10 1 1))
    apply head (.goesOn (.load 10 1))
    apply single (.ends (.add (by decide)))
  refine ⟨_, hreach, ?_⟩
  intro hwith
  apply absurd (hwith ⟨1, 0⟩ (List.mem_cons_self ..))
  decide

end Run
