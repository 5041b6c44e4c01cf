import AaOS.Lib.Machine
import AaOS.Tools.Audit

/-!
# The counts of repeated calls

`invoke` of `aaos-tools/src/invocation.rs` counts the authorised calls of an agent with a tool and
an input, in a table of limited size.  When a new key comes to a full table, the first quarter of
the keys is dropped, in the order in which the hash map is iterated.
-/

open List Table

/-- The agent, the tool and the hash of the input of a call. -/
abbrev RepeatKey : Type := AgentId × Text × UInt64

/-- The keys that are dropped before a key is counted, when the table is iterated in the order
`arrange`. -/
def repeatVictims (arrange : List RepeatKey → List RepeatKey) (counts : RepeatCounts)
    (key : RepeatKey) : List RepeatKey :=
  if repeatCountsMax ≤ counts.keys.length ∧ counts.lookup key = none then
    (arrange counts.keys).take (repeatCountsMax / 4)
  else []

/-- Count a call, when the table is iterated in the order `arrange`. -/
def countAttemptIn (arrange : List RepeatKey → List RepeatKey) (counts : RepeatCounts)
    (key : RepeatKey) : UInt32 × RepeatCounts :=
  let counts := Table.eraseAll (repeatVictims arrange counts key) counts
  let attemptCount := (counts.lookup key).getD 0 + 1
  (attemptCount, counts.insert key attemptCount)

/-- The model of `invoke` counts in the order of its table. -/
theorem countAttempt_eq (counts : RepeatCounts) (key : RepeatKey) :
  countAttempt counts key = countAttemptIn id counts key
  := by
  have hmem : counts.lookup key = none ↔ key ∉ counts.keys := AList.lookup_eq_none
  unfold countAttempt countAttemptIn repeatVictims
  simp only [hmem]
  split_ifs <;> rfl

/-- A call with the registry that it meets, the answers of its first check, and the order in which
the table is iterated. -/
structure GuardedCall where
  call : Invocation
  registry : CapabilityRegistry
  permitted : CapabilityHandle → Bool
  arrange : List RepeatKey → List RepeatKey
  perm : ∀ keys, (arrange keys).Perm keys

namespace RepeatCounts

variable (settings : AuditSettings)

/-- The key of a call, if the call is authorised. -/
def keyOf (input : GuardedCall) : Option RepeatKey :=
  match ToolInvocation.chargeOrDeny input.permitted input.registry input.call with
  | .error _ => none
  | .ok _ => some (input.call.agentId, input.call.toolName, settings.md5Hash input.call.input)

/-- The attempt count that is computed for a call. -/
def attempt (counts : RepeatCounts) (input : GuardedCall) : Option UInt32 :=
  (keyOf settings input).map fun key => (countAttemptIn input.arrange counts key).1

/-- The table after a call. -/
def step (counts : RepeatCounts) (input : GuardedCall) : RepeatCounts :=
  (keyOf settings input).elim counts fun key => (countAttemptIn input.arrange counts key).2

/-- The table after a list of calls. -/
abbrev after (inputs : List GuardedCall) : RepeatCounts := Machine.after (step settings) ∅ inputs

/-- A call drops a key from the table. -/
def Evicts (counts : RepeatCounts) (input : GuardedCall) (key : RepeatKey) : Prop :=
  key ∈ counts ∧ key ∉ step settings counts input

instance decidableEvicts (counts : RepeatCounts) (input : GuardedCall) (key : RepeatKey) :
    Decidable (Evicts settings counts input key) :=
  inferInstanceAs (Decidable (_ ∧ _))

/-- The number of authorised calls with a key since the key was dropped for the last time.  The
calls are given with the last one first. -/
def callsSince (key : RepeatKey) : List GuardedCall → Nat
  | [] => 0
  | input :: earlier =>
    if Evicts settings (after settings earlier.reverse) input key then 0
    else if keyOf settings input = some key then callsSince key earlier + 1
    else callsSince key earlier

/-- The table is not too large and has the number of calls with each key since it was dropped, a
call is given its number among them, and keys are dropped from a full table only. -/
structure Accurate (inputs : List GuardedCall) : Prop where
  size : (after settings inputs).keys.length ≤ repeatCountsMax
  counts : ∀ key, ((after settings inputs).lookup key).elim 0 UInt32.toNat
    = callsSince settings key inputs.reverse
  attempts : EachAfter (fun before input =>
    (attempt settings (after settings before) input).map UInt32.toNat
      = (keyOf settings input).map fun key => callsSince settings key before.reverse + 1) inputs
  evictions : EachAfter (fun before input =>
    ∀ key, Evicts settings (after settings before) input key →
      (after settings before).keys.length = repeatCountsMax) inputs

/-! ### Counting a call -/

section Count

variable {settings} {counts : RepeatCounts} {arrange : List RepeatKey → List RepeatKey}
  {key : RepeatKey}

theorem length_keys_countAttemptIn (hperm : ∀ keys, (arrange keys).Perm keys)
    (hsize : counts.keys.length ≤ repeatCountsMax) :
  (countAttemptIn arrange counts key).2.keys.length ≤ repeatCountsMax
  := by
  change (AList.insert key _ (eraseAll (repeatVictims arrange counts key) counts)).keys.length ≤ _
  unfold repeatVictims
  split_ifs with hfull
  · have hkeys := hperm counts.keys
    have hnodup : ((arrange counts.keys).take (repeatCountsMax / 4)).Nodup :=
      (hkeys.nodup_iff.mpr counts.keys_nodup).take
    have hlen := length_keys_eraseAll hnodup
      fun k hk => hkeys.mem_iff.mp (mem_of_mem_take hk)
    rw [length_take, hkeys.length_eq] at hlen
    apply (length_keys_insert_le ..).trans
    simp only [repeatCountsMax] at *
    omega
  · cases hlook : counts.lookup key with
    | some n => apply (length_keys_insert_of_some hlook _).trans_le hsize
    | none =>
      apply (length_keys_insert_le ..).trans
      simp only [hlook, and_true, not_le] at hfull
      apply hfull

/-- A key that is counted is not dropped. -/
theorem lookup_eraseAll_victims :
  (eraseAll (repeatVictims arrange counts key) counts).lookup key = counts.lookup key
  := by
  rw [lookup_eraseAll]
  split_ifs with hvic
  · unfold repeatVictims at hvic
    split_ifs at hvic with hfull
    · rw [hfull.2]
    · cases hvic
  · rfl

theorem countAttemptIn_fst :
  (countAttemptIn arrange counts key).1 = (counts.lookup key).getD 0 + 1
  := congrArg (·.getD 0 + 1) lookup_eraseAll_victims

theorem lookup_countAttemptIn (key' : RepeatKey) :
  (countAttemptIn arrange counts key).2.lookup key'
    = if key' = key then some (countAttemptIn arrange counts key).1
      else if key' ∈ repeatVictims arrange counts key then none else counts.lookup key'
  := by
  apply (lookup_insert' ..).trans
  split_ifs with hself hvic
  · rfl
  · rw [lookup_eraseAll, if_pos hvic]
  · rw [lookup_eraseAll, if_neg hvic]

theorem evicts_iff {input : GuardedCall} {key' : RepeatKey}
    (hkey : keyOf settings input = some key) :
  Evicts settings counts input key'
    ↔ key' ∈ counts ∧ key' ≠ key ∧ key' ∈ repeatVictims input.arrange counts key
  := by
  have hstep : step settings counts input = (countAttemptIn input.arrange counts key).2 := by
    rw [step, hkey, Option.elim_some]
  unfold Evicts
  rw [hstep, ← AList.lookup_eq_none, lookup_countAttemptIn]
  refine and_congr_right fun hmem => ?_
  have hsome := AList.lookup_isSome.mpr hmem
  split_ifs with hself hvic
  · simp [hself]
  · simp [hself, hvic]
  · simp [hvic, Option.isSome_iff_ne_none.mp hsome]

end Count

/-! ### Runs -/

section Runs

variable {settings} {inputs : List GuardedCall} {input : GuardedCall} {key : RepeatKey}

theorem after_concat :
  after settings (inputs ++ [input]) = step settings (after settings inputs) input
  := Machine.after_concat

theorem callsSince_concat (key : RepeatKey) :
  callsSince settings key (inputs ++ [input]).reverse
    = if Evicts settings (after settings inputs) input key then 0
      else if keyOf settings input = some key then callsSince settings key inputs.reverse + 1
      else callsSince settings key inputs.reverse
  := by
  rw [reverse_append, reverse_singleton, singleton_append, callsSince, reverse_reverse]

theorem callsSince_le (key : RepeatKey) (inputs : List GuardedCall) :
  callsSince settings key inputs ≤ inputs.length
  := by
  induction inputs with
  | nil => apply Nat.le_refl
  | cons input inputs ih =>
    rw [callsSince, length_cons]
    split_ifs <;> omega

theorem Accurate.toNat_countAttemptIn (hacc : Accurate settings inputs)
    (hfew : inputs.length + 1 < 2 ^ 32) (arrange : List RepeatKey → List RepeatKey) :
  (countAttemptIn arrange (after settings inputs) key).1.toNat
    = callsSince settings key inputs.reverse + 1
  := by
  have hle : callsSince settings key inputs.reverse ≤ _ := callsSince_le key inputs.reverse
  have hcount := hacc.counts key
  rw [length_reverse] at hle
  rw [countAttemptIn_fst, UInt32.toNat_add, ← hcount]
  cases hlook : (after settings inputs).lookup key with
  | none => rfl
  | some n =>
    rw [hlook] at hcount
    apply Nat.mod_eq_of_lt
    change n.toNat + 1 < 2 ^ 32
    change n.toNat = _ at hcount
    omega

theorem Accurate.concat (hacc : Accurate settings inputs) (hfew : inputs.length + 1 < 2 ^ 32) :
  Accurate settings (inputs ++ [input])
  := by
  have hcount : ∀ key, (countAttemptIn input.arrange (after settings inputs) key).1.toNat
      = callsSince settings key inputs.reverse + 1 :=
    fun key => hacc.toNat_countAttemptIn hfew input.arrange
  cases hkey : keyOf settings input with
  | none =>
    have hsame : step settings (after settings inputs) input = after settings inputs := by
      rw [step, hkey, Option.elim_none]
    have hkept : ∀ key, ¬ Evicts settings (after settings inputs) input key := by
      rintro key ⟨hmem, hnot⟩
      rw [hsame] at hnot
      apply hnot hmem
    constructor
    case size =>
      rw [after_concat, hsame]
      apply hacc.size
    case counts =>
      intro key
      rw [after_concat, hsame, callsSince_concat, if_neg (hkept key), hkey, if_neg nofun]
      apply hacc.counts
    case attempts => exact hacc.attempts.snoc (by simp [attempt, hkey])
    case evictions => exact hacc.evictions.snoc fun key h => absurd h (hkept key)
  | some key =>
    have hstep : step settings (after settings inputs) input
        = (countAttemptIn input.arrange (after settings inputs) key).2 := by
      rw [step, hkey, Option.elim_some]
    constructor
    case size =>
      rw [after_concat, hstep]
      apply length_keys_countAttemptIn input.perm hacc.size
    case counts =>
      intro key'
      rw [after_concat, hstep, callsSince_concat, lookup_countAttemptIn]
      simp only [hkey, Option.some_inj]
      by_cases hself : key' = key
      · subst hself
        have hkept : ¬ Evicts settings (after settings inputs) input key' := by
          rw [evicts_iff hkey]
          exact fun h => h.2.1 rfl
        rw [if_pos rfl, if_neg hkept, if_pos rfl]
        apply hcount
      · rw [if_neg hself, if_neg (Ne.symm hself), ← hacc.counts key']
        simp only [evicts_iff hkey, ne_eq, hself, not_false_eq_true, true_and]
        by_cases hvic : key' ∈ repeatVictims input.arrange (after settings inputs) key
        · by_cases hmem : key' ∈ after settings inputs
          · simp [hvic, hmem]
          · simp [hvic, hmem, AList.lookup_eq_none.mpr hmem]
        · simp [hvic]
    case attempts =>
      exact hacc.attempts.snoc (by simp [attempt, hkey, hcount])
    case evictions =>
      refine hacc.evictions.snoc fun key' h => ?_
      have hvic := ((evicts_iff hkey).mp h).2.2
      unfold repeatVictims at hvic
      split_ifs at hvic with hfull
      · exact Nat.le_antisymm hacc.size hfull.1
      · cases hvic

end Runs

/-- In every run of fewer than 2^32 calls, whatever keys are dropped, the counts are accurate; and
the model of `invoke` counts as the step does. -/
theorem accurate_after (settings : AuditSettings) {inputs : List GuardedCall}
    (hfew : inputs.length < 2 ^ 32) :
  Accurate settings inputs
    ∧ ∀ (config : ToolInvocation) (outcomes : InvocationOutcomes) (registry : CapabilityRegistry)
        (call : Invocation) (counts : RepeatCounts),
      (config.invokeAudited settings outcomes registry counts call).counts
        = step settings counts ⟨call, registry, outcomes.permitted, id, fun _ => .refl _⟩
  := by
  constructor
  · induction inputs using List.reverseRecOn with
    | nil => exact ⟨Nat.zero_le _, fun _ => rfl, EachAfter.nil, EachAfter.nil⟩
    | append_singleton inputs input ih =>
      rw [List.length_append, List.length_singleton] at hfew
      apply (ih (Nat.lt_of_succ_lt hfew)).concat hfew
  · intro config outcomes registry call counts
    unfold ToolInvocation.invokeAudited step keyOf
    simp only [countAttempt_eq]
    cases ToolInvocation.chargeOrDeny outcomes.permitted registry call with
    | error e => rfl
    | ok charged =>
      dsimp only
      split <;> rfl

def repeatedCall : GuardedCall where
  call := ToolInvocation.unknownToolCall
  registry := ToolInvocation.everyToolRegistry
  permitted := ToolInvocation.unknownToolOutcomes.permitted
  arrange keys := keys.reverse
  perm := List.reverse_perm

/-- The same call is made twice, and the second one has the number two. -/
theorem accurate_after_repeatedCall :
  Accurate ToolInvocation.plainSettings [repeatedCall, repeatedCall]
    ∧ attempt ToolInvocation.plainSettings (after ToolInvocation.plainSettings [repeatedCall])
        repeatedCall = some 2
  := ⟨(accurate_after ToolInvocation.plainSettings (by decide)).1, by decide⟩

end RepeatCounts
