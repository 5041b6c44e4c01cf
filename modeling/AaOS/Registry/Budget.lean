import AaOS.Registry.Registry

/-!
# Invocation budgets under delegation

A narrowed token inherits the limit on the uses but counts its own uses from zero.  Hence the uses
of a token and all that were narrowed from it are bounded by the limit times the number of tokens,
and not by the limit.
-/

/-- An operation on a registry, with the state of the file system and the clock at the time. -/
inductive DelegationOp where
  | narrowWithCapability (canonicalize : Text → Option Text) (id : Uuid)
      (parentHandle : CapabilityHandle) (parentAgent childAgent : AgentId)
      (requestedCapability : Capability) (additional : Constraints)
  | authorizeAndRecord (canonicalize : Text → Option Text) (now : DateTime)
      (handle : CapabilityHandle) (requestingAgent : AgentId) (requested : Capability)

/-- A registry with the number of tokens issued and the number of uses granted. -/
structure Tally where
  registry : CapabilityRegistry
  tokens : Nat
  successes : Nat

namespace Tally

/-- A registry that holds one token. -/
def start (agentId : AgentId) (token : CapabilityToken) : Tally where
  registry := (CapabilityRegistry.new.insert agentId token).1
  tokens := 1
  successes := 0

/-- The tally after an operation. -/
def step (tally : Tally) : DelegationOp → Tally
  | .narrowWithCapability canonicalize id parentHandle parentAgent childAgent
      requestedCapability additional =>
      match tally.registry.narrowWithCapability canonicalize id parentHandle parentAgent
          childAgent requestedCapability additional with
      | (registry, some _) => { tally with registry := registry, tokens := tally.tokens + 1 }
      | (registry, none) => { tally with registry := registry }
  | .authorizeAndRecord canonicalize now handle requestingAgent requested =>
    match tally.registry.authorizeAndRecord canonicalize now handle requestingAgent
        requested with
    | (registry, .ok _) => { tally with registry := registry, successes := tally.successes + 1 }
    | (registry, .error _) => { tally with registry := registry }

/-- The tally after a sequence of operations. -/
def run (agentId : AgentId) (token : CapabilityToken) (ops : List DelegationOp) : Tally :=
  ops.foldl step (start agentId token)

end Tally

/-! ### The uses that remain -/

/-- The uses that an entry still allows; the limit of an unlimited token does not matter. -/
def OwnedEntry.remaining (entry : OwnedEntry) : Nat :=
  entry.token.constraints.maxInvocations.elim 0
    (fun max => max.toNat - entry.token.invocationCount.toNat)

/-- The entry has a limit of at most `bound` uses. -/
def OwnedEntry.LimitedBy (bound : UInt64) (entry : OwnedEntry) : Prop :=
  ∃ max, entry.token.constraints.maxInvocations = some max ∧ max ≤ bound

variable {bound : UInt64} {entry : OwnedEntry}

theorem OwnedEntry.LimitedBy.remaining_le (hlim : entry.LimitedBy bound) :
  entry.remaining ≤ bound.toNat
  := by
  obtain ⟨max, hmax, hle⟩ := hlim
  rw [UInt64.le_iff_toNat_le] at hle
  simp only [remaining, hmax, Option.elim_some]
  omega

theorem OwnedEntry.LimitedBy.narrowWithCapability (hlim : entry.LimitedBy bound)
    {canonicalize : Text → Option Text} {id : Uuid} {parentAgent childAgent : AgentId}
    {requestedCapability : Capability} {additional : Constraints} {child : CapabilityToken}
    (hchild : entry.narrowWithCapability canonicalize id parentAgent childAgent
      requestedCapability additional = some child) :
  LimitedBy bound ⟨childAgent, child⟩
  := by
  obtain ⟨max, hmax, hle⟩ := hlim
  simp only [OwnedEntry.narrowWithCapability, CapabilityToken.narrowWithCapability, ite_not]
    at hchild
  split_ifs at hchild
  cases hchild
  cases hadd : additional.maxInvocations with
  | none =>
    use max
    simp [CapabilityToken.tighten, hadd, hmax, hle]
  | some additional =>
    use min max additional
    simp only [CapabilityToken.tighten, hadd, hmax, Option.elim_some, true_and]
    exact Std.le_trans Std.min_le_left hle

theorem OwnedEntry.remaining_recordUse (hlim : entry.LimitedBy bound)
    (hleft : entry.token.isExhausted = false) :
  remaining { entry with token := entry.token.recordUse.1 } + 1 = entry.remaining
  := by
  obtain ⟨max, hmax, hle⟩ := hlim
  simp only [CapabilityToken.isExhausted, hmax, Option.any_some, ge_iff_le,
    decide_eq_false_iff_not, UInt64.not_le, UInt64.lt_iff_toNat_lt] at hleft
  have hsucc : (entry.token.invocationCount + 1).toNat = entry.token.invocationCount.toNat + 1 := by
    rw [UInt64.toNat_add]
    have hmax' := max.toNat_lt
    exact Nat.mod_eq_of_lt (by simp; omega)
  simp only [remaining, CapabilityToken.recordUse, hmax, Option.elim_some, hsucc]
  omega

/-! ### The invariant of a tally -/

/-- Every entry is limited, and the tokens issued pay for the uses granted and those that remain. -/
structure Tally.Balanced (bound : UInt64) (tally : Tally) : Prop where
  limited : ∀ h entry, tally.registry.table.lookup h = some entry → entry.LimitedBy bound
  balance : tally.successes + tally.registry.table.total OwnedEntry.remaining
    ≤ bound.toNat * tally.tokens

namespace Tally.Balanced

variable {bound : UInt64} {tally : Tally}

variable {agentId : AgentId} {token : CapabilityToken}

theorem insert (hbal : tally.Balanced bound) (hlim : OwnedEntry.LimitedBy bound ⟨agentId, token⟩) :
  Tally.Balanced bound
    ⟨(tally.registry.insert agentId token).1, tally.tokens + 1, tally.successes⟩
  := by
  constructor
  · intro h entry hlook
    obtain ⟨-, rfl⟩ | ⟨-, hlook⟩ := Table.lookup_insert_eq_some hlook
    · apply hlim
    · apply hbal.limited h entry hlook
  · have htotal := Table.total_insert_le OwnedEntry.remaining ⟨tally.registry.nextId⟩
      ⟨agentId, token⟩ tally.registry.table
    have hbalan := hbal.balance
    have hrem := hlim.remaining_le
    simp only [CapabilityRegistry.insert, Nat.mul_add, Nat.mul_one]
    omega

theorem use (hbal : tally.Balanced bound) {h : CapabilityHandle} {entry : OwnedEntry}
    (hlook : tally.registry.table.lookup h = some entry) (hleft : entry.token.isExhausted = false) :
  Tally.Balanced bound
    ⟨{ tally.registry with
        table := tally.registry.table.insert h
          { entry with token := entry.token.recordUse.1 } },
      tally.tokens, tally.successes + 1⟩
  := by
  have hlim := hbal.limited h entry hlook
  constructor
  · intro h' entry' hlook'
    obtain ⟨-, rfl⟩ | ⟨-, hlook'⟩ := Table.lookup_insert_eq_some hlook'
    · apply hlim
    · apply hbal.limited h' entry' hlook'
  · have htotal := Table.total_insert_of_lookup (f := OwnedEntry.remaining)
      (v := { entry with token := entry.token.recordUse.1 }) hlook
    have hrem := OwnedEntry.remaining_recordUse hlim hleft
    have hbalan := hbal.balance
    simp only
    omega

theorem start (hmax : token.constraints.maxInvocations = some bound) :
  Tally.Balanced bound (Tally.start agentId token)
  := by
  have hempty : Tally.Balanced bound ⟨CapabilityRegistry.new, 0, 0⟩ := by
    constructor
    · intro h entry hlook
      cases hlook
    · apply Nat.le_refl
  apply hempty.insert
  exact ⟨bound, hmax, UInt64.le_refl bound⟩

theorem step (hbal : tally.Balanced bound) (op : DelegationOp) :
  Tally.Balanced bound (tally.step op)
  := by
  cases op with
  | narrowWithCapability canonicalize id parentHandle parentAgent childAgent
      requestedCapability additional =>
      cases hchild : (tally.registry.table.lookup parentHandle).bind
          (·.narrowWithCapability canonicalize id parentAgent childAgent requestedCapability
            additional) with
      | none =>
        simp only [Tally.step, CapabilityRegistry.narrowWithCapability, hchild]
        apply hbal
      | some child =>
        obtain ⟨entry, hlook, hnarr⟩ := Option.bind_eq_some_iff.mp hchild
        simp only [Tally.step, CapabilityRegistry.narrowWithCapability, hchild]
        apply hbal.insert
        apply (hbal.limited parentHandle entry hlook).narrowWithCapability hnarr
  | authorizeAndRecord canonicalize now handle requestingAgent requested =>
    simp only [Tally.step, CapabilityRegistry.authorizeAndRecord]
    cases hlook : tally.registry.table.lookup handle with
    | none => apply hbal
    | some entry =>
      cases hres : entry.authorizeAndRecord canonicalize now requestingAgent requested with
      | error reason =>
        simp only [hres]
        apply hbal
      | ok used =>
        obtain ⟨-, hperm, rfl⟩ := OwnedEntry.authorizeAndRecord_eq_ok hres
        simp only [hres]
        apply hbal.use hlook
        apply CapabilityToken.not_isExhausted_of_permits hperm

theorem run (hmax : token.constraints.maxInvocations = some bound) (ops : List DelegationOp) :
  Tally.Balanced bound (Tally.run agentId token ops)
  := by
  induction ops using List.reverseRecOn with
  | nil => apply start hmax
  | append_singleton ops op ih =>
    rw [Tally.run, List.foldl_append]
    apply ih.step op

end Tally.Balanced

/-- The uses granted on a limited token and those narrowed from it are at most the limit times the
number of these tokens, whose limits are at most as high. -/
theorem Tally.successes_le {agentId : AgentId} {token : CapabilityToken} {max : UInt64}
    (hmax : token.constraints.maxInvocations = some max) (ops : List DelegationOp) :
  (Tally.run agentId token ops).successes ≤ max.toNat * (Tally.run agentId token ops).tokens
    ∧ ∀ h entry, (Tally.run agentId token ops).registry.table.lookup h = some entry →
        entry.LimitedBy max
  := by
  have hbal : Tally.Balanced max (Tally.run agentId token ops) := Tally.Balanced.run hmax ops
  have hbalan := hbal.balance
  constructor
  · omega
  · apply hbal.limited

def singleUse : CapabilityToken :=
  CapabilityToken.issue 0 0 ⟨0⟩ (.toolInvoke ['t']) { maxInvocations := some 1 }

def useTwice : List DelegationOp :=
  [.narrowWithCapability (fun _ => none) 1 ⟨0⟩ ⟨0⟩ ⟨1⟩ (.toolInvoke ['t']) {},
    .authorizeAndRecord (fun _ => none) 0 ⟨0⟩ ⟨0⟩ (.toolInvoke ['t']),
    .authorizeAndRecord (fun _ => none) 0 ⟨1⟩ ⟨1⟩ (.toolInvoke ['t'])]

theorem Tally.successes_le_singleUse :
  (Tally.run ⟨0⟩ singleUse useTwice).successes
    ≤ 1 * (Tally.run ⟨0⟩ singleUse useTwice).tokens
  := by
  have hmax : singleUse.constraints.maxInvocations = some 1 := rfl
  apply (Tally.successes_le hmax useTwice).1

/-- A token that may be used once is used twice, once through a narrowed token. -/
theorem Tally.not_successes_le_max :
  singleUse.constraints.maxInvocations = some 1
    ∧ (Tally.run ⟨0⟩ singleUse useTwice).successes = 2
  := by
  decide
