import AaOS.Daemon.SpawnTool
import AaOS.Runtime.FailedSpawn

/-!
# Tokens of children that were not spawned

The tool `spawn_agent` issues the tokens of a child before it spawns the child; a call that fails
in between leaves them in the table for good.  It leaves none exactly when it fails before the
first token is issued, which is decided by the state before the call and, for the second child, by
the state in which the run of the first one ends.
-/

open CapabilityRegistry

def NoNewOrphans (before after : AgentRegistry) : Prop :=
  ∀ h entry, after.capabilityRegistry.table.lookup h = some entry →
    after.agents.lookup entry.agentId = none →
    ∃ old, before.capabilityRegistry.table.lookup h = some old ∧ old.token.id = entry.token.id

namespace ChildDraws

variable (child : ChildDraws)

/-- The identifiers that are drawn for a child and its tokens are not in use. -/
structure FreshFor (ctx : InvocationContext) (before registry : AgentRegistry) : Prop where
  agent : registry.agents.lookup child.childId = none
  caller : child.childId ≠ ctx.agentId
  token : ∀ i h entry, before.capabilityRegistry.table.lookup h = some entry →
    entry.token.id ≠ child.tokenId i

/-- The table has a token that was issued to the child. -/
def HasToken (capabilities : CapabilityRegistry) : Prop :=
  ∃ i h entry, capabilities.table.lookup h = some entry ∧ entry.agentId = child.childId
    ∧ entry.token.id = child.tokenId i

end ChildDraws

namespace SpawnAgentTool

variable (tool : SpawnAgentTool) (ctx : InvocationContext)

def DelegableAfter (capabilities : CapabilityRegistry) (clock : CapabilityHandle → DateTime)
    (issued : Nat) (declaration : CapabilityDeclaration) : Prop :=
  ∃ capability, parseCapability tool.spawn.toLowercase declaration = some capability
    ∧ ∃ h ∈ ctx.tokens, (∀ j < issued, h.raw ≠ capabilities.nextId + UInt64.ofNat j)
      ∧ capabilities.permits tool.canonicalize (clock h) h ctx.agentId capability = true

/-- The first child is not given a token, or it is given all of them and is admitted. -/
def FirstChildClean (registry : AgentRegistry) (manifest : AgentManifest) : Prop :=
  (∀ declaration, manifest.capabilities.head? = some declaration →
      ¬ tool.Delegable ctx registry.capabilityRegistry (tool.first.clock 0) declaration)
    ∨ ((∀ i declaration, manifest.capabilities[i]? = some declaration →
        tool.DelegableAfter ctx registry.capabilityRegistry (tool.first.clock i) i declaration)
      ∧ childDepth ctx registry ≤ maxSpawnDepth
      ∧ registry.activeCount < registry.maxAgents)

/-- The second child is admitted where the run of the first one ends, or it is given no token and
that run leaves none. -/
def SecondChildClean (before registry : AgentRegistry) (manifest : AgentManifest) : Prop :=
  registry.activeCount < registry.maxAgents
    ∨ ((∀ i declaration, manifest.capabilities[i]? = some declaration →
        ¬ tool.Delegable ctx registry.capabilityRegistry (tool.second.clock i) declaration)
      ∧ NoNewOrphans before registry)

/-- The run of the first child ends with an error in the given registry. -/
def FirstRunFails (before : AgentRegistry) (manifest : AgentManifest) (message : Text)
    (registry : AgentRegistry) : Prop :=
  ∃ started result e,
    tool.startFirst ctx manifest (childDepth ctx before) before = (.ok (), started)
    ∧ tool.runChild tool.first manifest message started = (result, registry)
    ∧ result.stopReason = .error e

/-- The identifiers that a call draws are not in use. -/
structure Fresh (registry : AgentRegistry) : Prop where
  first : tool.first.FreshFor ctx registry registry
  second : ∀ manifest message after, tool.FirstRunFails ctx registry manifest message after →
    tool.second.FreshFor ctx registry after

/-- A call that fails leaves no tokens of agents that are not registered. -/
def LeavesNoOrphans (registry : AgentRegistry) (input : Json) : Prop :=
  ∀ e, (tool.invoke ctx registry input).1 = .error e →
    NoNewOrphans registry (tool.invoke ctx registry input).2

end SpawnAgentTool

/-! ### Tokens that are issued -/

section Issued

variable {tool : SpawnAgentTool} {ctx : InvocationContext} {capabilities : CapabilityRegistry}
  {child : ChildDraws}

theorem ChildDraws.hasToken_insert {token : CapabilityToken} {i : Nat}
    (hid : token.id = child.tokenId i) :
  child.HasToken (capabilities.insert child.childId token).1
  := by
  use i, ⟨capabilities.nextId⟩, ⟨child.childId, token⟩
  simp [lookup_insert, hid]

theorem ChildDraws.HasToken.not_noNewOrphans {before registry : AgentRegistry}
    (htoken : child.HasToken capabilities) (hfresh : child.FreshFor ctx before registry) :
  ¬ NoNewOrphans before { registry with capabilityRegistry := capabilities }
  := by
  intro hnone
  obtain ⟨i, h, entry, hentry, howner, hid⟩ := htoken
  obtain ⟨old, hold, hsame⟩ := hnone h entry hentry (by rw [howner]; apply hfresh.agent)
  apply hfresh.token i h old hold
  rw [hsame, hid]

theorem CapabilityRegistry.permits_insert {canonicalize : Text → Option Text} {now : DateTime}
    {h : CapabilityHandle} {agentId owner : AgentId} {requested : Capability}
    {token : CapabilityToken} (hne : owner ≠ agentId) :
  (capabilities.insert owner token).1.permits canonicalize now h agentId requested = true
    ↔ h.raw ≠ capabilities.nextId
      ∧ capabilities.permits canonicalize now h agentId requested = true
  := by
  obtain ⟨raw⟩ := h
  simp only [permits, lookup_insert, CapabilityHandle.mk.injEq]
  by_cases heq : raw = capabilities.nextId
  · simp [heq, hne]
  · simp [heq]

namespace SpawnAgentTool

theorem delegableAfter_zero {clock : CapabilityHandle → DateTime}
    {declaration : CapabilityDeclaration} :
  tool.DelegableAfter ctx capabilities clock 0 declaration
    ↔ tool.Delegable ctx capabilities clock declaration
  := by
  simp [DelegableAfter, Delegable]

theorem delegableAfter_insert {clock : CapabilityHandle → DateTime} {issued : Nat}
    {declaration : CapabilityDeclaration} {owner : AgentId} {token : CapabilityToken}
    (hne : owner ≠ ctx.agentId) :
  tool.DelegableAfter ctx (capabilities.insert owner token).1 clock issued declaration
    ↔ tool.DelegableAfter ctx capabilities clock (issued + 1) declaration
  := by
  have hnext : (capabilities.insert owner token).1.nextId = capabilities.nextId + 1 := rfl
  have hspar : ∀ h : CapabilityHandle,
      (∀ j < issued + 1, h.raw ≠ capabilities.nextId + UInt64.ofNat j)
        ↔ (∀ j < issued, h.raw ≠ capabilities.nextId + 1 + UInt64.ofNat j)
          ∧ h.raw ≠ capabilities.nextId := by
    intro h
    rw [Nat.forall_lt_succ_left, and_comm]
    simp [UInt64.ofNat_add, UInt64.add_assoc, UInt64.add_comm 1]
  simp only [DelegableAfter, permits_insert hne, hnext, hspar, and_assoc]

variable (tool capabilities) in
theorem delegate_eq_ok_iff (hne : child.childId ≠ ctx.agentId) (childName : Text) (i : Nat)
    (declarations : List CapabilityDeclaration) :
  (∃ handles, (tool.delegate ctx child childName capabilities i declarations).2 = .ok handles)
    ↔ ∀ k declaration, declarations[k]? = some declaration →
      tool.DelegableAfter ctx capabilities (child.clock (i + k)) k declaration
  := by
  induction declarations generalizing capabilities i with
  | nil => simp [delegate]
  | cons declaration rest ih =>
    rw [← Nat.and_forall_add_one]
    simp only [List.getElem?_cons_zero, List.getElem?_cons_succ, Option.some.injEq, forall_eq',
      Nat.add_zero, delegableAfter_zero]
    obtain ⟨hnot, e, hrun⟩ | ⟨hdel, _, token, hissue, hrun⟩ :=
      tool.delegate_cons ctx capabilities child childName i declaration rest
    · simp [hrun, hnot]
    · have hrest := ih (capabilities.insert child.childId token).1 (i + 1)
      simp only [delegableAfter_insert hne, Nat.add_right_comm i 1, Nat.add_assoc i] at hrest
      simp only [hrun, hdel, true_and, ← hrest]
      cases (tool.delegate ctx child childName (capabilities.insert child.childId token).1 (i + 1)
        rest).2 <;> simp [Except.map]

variable (tool ctx capabilities child) in
theorem delegate_issues (childName : Text) (i : Nat) (declarations : List CapabilityDeclaration) :
  ((∀ declaration, declarations.head? = some declaration →
        ¬ tool.Delegable ctx capabilities (child.clock i) declaration)
      ∧ (tool.delegate ctx child childName capabilities i declarations).1 = capabilities)
    ∨ ((∃ declaration, declarations.head? = some declaration
        ∧ tool.Delegable ctx capabilities (child.clock i) declaration)
      ∧ child.HasToken (tool.delegate ctx child childName capabilities i declarations).1)
  := by
  induction declarations generalizing capabilities i with
  | nil => simp [delegate]
  | cons declaration rest ih =>
    simp only [List.head?_cons, Option.some.injEq, forall_eq', exists_eq_left']
    obtain ⟨hnot, e, hrun⟩ | ⟨hdel, _, token, hissue, hrun⟩ :=
      tool.delegate_cons ctx capabilities child childName i declaration rest
    · left
      rw [hrun]
      exact ⟨hnot, rfl⟩
    · right
      rw [hrun]
      refine ⟨hdel, ?_⟩
      obtain ⟨-, hsame⟩ | ⟨-, htoken⟩ := ih (capabilities.insert child.childId token).1 (i + 1)
      · simp only [hsame]
        apply ChildDraws.hasToken_insert hissue.id
      · apply htoken

variable (tool ctx capabilities child) in
theorem delegateWhatRemains_issues (i : Nat) (declarations : List CapabilityDeclaration) :
  ((∀ k declaration, declarations[k]? = some declaration →
        ¬ tool.Delegable ctx capabilities (child.clock (i + k)) declaration)
      ∧ (tool.delegateWhatRemains ctx child capabilities i declarations).1 = capabilities)
    ∨ ((∃ k declaration, declarations[k]? = some declaration
        ∧ tool.Delegable ctx capabilities (child.clock (i + k)) declaration)
      ∧ child.HasToken (tool.delegateWhatRemains ctx child capabilities i declarations).1)
  := by
  induction declarations generalizing capabilities i with
  | nil => simp [delegateWhatRemains]
  | cons declaration rest ih =>
    obtain ⟨hnot, hrun⟩ | ⟨hdel, _, token, hissue, hrun⟩ :=
      tool.delegateWhatRemains_cons ctx capabilities child i declaration rest
    · rw [hrun]
      obtain ⟨hnone, hsame⟩ | ⟨⟨k, later, hlater, hdel⟩, htoken⟩ := ih capabilities (i + 1)
      · left
        refine ⟨?_, hsame⟩
        rw [← Nat.and_forall_add_one]
        simp only [List.getElem?_cons_zero, List.getElem?_cons_succ, Option.some.injEq, forall_eq']
        refine ⟨hnot, ?_⟩
        intro k
        rw [← Nat.add_assoc, Nat.add_right_comm]
        apply hnone
      · right
        rw [Nat.add_right_comm, Nat.add_assoc] at hdel
        exact ⟨⟨k + 1, later, hlater, hdel⟩, htoken⟩
    · right
      rw [hrun]
      refine ⟨⟨0, declaration, rfl, hdel⟩, ?_⟩
      obtain ⟨-, hsame⟩ | ⟨-, htoken⟩ := ih (capabilities.insert child.childId token).1 (i + 1)
      · simp only [hsame]
        apply ChildDraws.hasToken_insert hissue.id
      · apply htoken

end SpawnAgentTool

end Issued

/-! ### Calls that fail -/

namespace SpawnAgentTool

variable {tool : SpawnAgentTool} {ctx : InvocationContext} {registry : AgentRegistry}

variable (tool ctx registry) in
theorem spawnChild_cases {child : ChildDraws} (hnew : registry.agents.lookup child.childId = none)
    (manifest : AgentManifest) (depth : UInt32) (handles : List CapabilityHandle) :
  (¬ (depth ≤ maxSpawnDepth ∧ registry.activeCount < registry.maxAgents)
      ∧ ∃ e, tool.spawnChild ctx child manifest depth registry handles = (.error e, registry))
    ∨ ((depth ≤ maxSpawnDepth ∧ registry.activeCount < registry.maxAgents)
      ∧ ∃ after, tool.spawnChild ctx child manifest depth registry handles = (.ok (), after))
  := by
  rw [← UInt32.not_lt, ← UInt64.not_le, ← not_or, not_not]
  obtain ⟨href, e, hrun⟩ | ⟨href, process, hstate, -, hrun⟩ :=
    (SpawnCall.spawnWithTokenHandles child.childId manifest handles depth
      (some ctx.agentId)).run_cases
      { tool.spawn with tokenId := child.tokenId, now := child.now } registry
  · left
    exact ⟨href, e, hrun⟩
  · right
    simp only [AgentRegistry.publish_eq hstate, SpawnCall.id, hnew] at hrun
    exact ⟨href, _, hrun⟩

/-- The tokens that are left when the first child is not spawned. -/
theorem noNewOrphans_delegate_iff (hfresh : tool.first.FreshFor ctx registry registry)
    (manifest : AgentManifest) :
  NoNewOrphans registry { registry with capabilityRegistry := (tool.delegate ctx tool.first
      manifest.name registry.capabilityRegistry 0 manifest.capabilities).1 }
    ↔ ∀ declaration, manifest.capabilities.head? = some declaration →
      ¬ tool.Delegable ctx registry.capabilityRegistry (tool.first.clock 0) declaration
  := by
  obtain ⟨hnone, hsame⟩ | ⟨⟨declaration, hhead, hdel⟩, htoken⟩ :=
    tool.delegate_issues ctx registry.capabilityRegistry tool.first manifest.name 0
      manifest.capabilities
  · rw [hsame]
    refine iff_of_true ?_ hnone
    intro h entry hentry _
    use entry
  · apply iff_of_false (htoken.not_noNewOrphans hfresh)
    intro hnone
    apply hnone declaration hhead hdel

/-- The first child is spawned when it gets all its tokens and is admitted; otherwise its tokens are
left. -/
theorem startFirst_cases (hfresh : tool.first.FreshFor ctx registry registry)
    (manifest : AgentManifest) :
  ((∀ i declaration, manifest.capabilities[i]? = some declaration →
        tool.DelegableAfter ctx registry.capabilityRegistry (tool.first.clock i) i declaration)
      ∧ childDepth ctx registry ≤ maxSpawnDepth ∧ registry.activeCount < registry.maxAgents
      ∧ ∃ started, tool.startFirst ctx manifest (childDepth ctx registry) registry
        = (.ok (), started))
    ∨ (¬ ((∀ i declaration, manifest.capabilities[i]? = some declaration →
        tool.DelegableAfter ctx registry.capabilityRegistry (tool.first.clock i) i declaration)
        ∧ childDepth ctx registry ≤ maxSpawnDepth ∧ registry.activeCount < registry.maxAgents)
      ∧ ∃ e, tool.startFirst ctx manifest (childDepth ctx registry) registry
        = (.error e, { registry with capabilityRegistry := (tool.delegate ctx tool.first
            manifest.name registry.capabilityRegistry 0 manifest.capabilities).1 }))
  := by
  have hall := tool.delegate_eq_ok_iff registry.capabilityRegistry hfresh.caller manifest.name 0
    manifest.capabilities
  simp only [Nat.zero_add] at hall
  rw [← hall]
  unfold startFirst
  rcases hdel : tool.delegate ctx tool.first manifest.name registry.capabilityRegistry 0
    manifest.capabilities with ⟨capabilities, e | handles⟩
  · right
    simp only [reduceCtorEq, exists_false, false_and, not_false_eq_true, true_and]
    exact ⟨e, rfl⟩
  · simp only [Except.ok.injEq, exists_eq', true_and]
    obtain ⟨href, e, hrun⟩ | ⟨⟨hdepth, hlimit⟩, started, hrun⟩ :=
      tool.spawnChild_cases ctx { registry with capabilityRegistry := capabilities } hfresh.agent
        manifest (childDepth ctx registry) handles
    · right
      exact ⟨href, e, hrun⟩
    · left
      exact ⟨hdepth, hlimit, started, hrun⟩

/-- The second child is spawned when the registry is not full; otherwise only its tokens
are left. -/
theorem retry_cases {before : AgentRegistry} (hfresh : tool.second.FreshFor ctx before registry)
    {depth : UInt32} (hdepth : depth ≤ maxSpawnDepth) (manifest : AgentManifest)
    (message originalError : Text) :
  (registry.activeCount < registry.maxAgents
      ∧ ∃ answer after, tool.retry ctx manifest message depth originalError registry
        = (.ok answer, after))
    ∨ (¬ registry.activeCount < registry.maxAgents
      ∧ ∃ e, tool.retry ctx manifest message depth originalError registry
        = (.error e, { registry with capabilityRegistry := (tool.delegateWhatRemains ctx
            tool.second registry.capabilityRegistry 0 manifest.capabilities).1 }))
  := by
  unfold retry startSecond
  rcases tool.delegateWhatRemains ctx tool.second registry.capabilityRegistry 0
    manifest.capabilities with ⟨capabilities, handles⟩
  obtain ⟨href, e, hrun⟩ | ⟨⟨-, hlimit⟩, started, hrun⟩ :=
    tool.spawnChild_cases ctx { registry with capabilityRegistry := capabilities } hfresh.agent
      manifest depth handles
  · right
    simp only [hrun]
    exact ⟨fun hlimit => href ⟨hdepth, hlimit⟩, e, rfl⟩
  · left
    simp only [hrun]
    exact ⟨hlimit, _, _, rfl⟩

/-- The tokens that are left when the second child is not spawned. -/
theorem noNewOrphans_delegateWhatRemains_iff {before : AgentRegistry}
    (hfresh : tool.second.FreshFor ctx before registry) (manifest : AgentManifest) :
  NoNewOrphans before { registry with capabilityRegistry := (tool.delegateWhatRemains ctx
      tool.second registry.capabilityRegistry 0 manifest.capabilities).1 }
    ↔ (∀ i declaration, manifest.capabilities[i]? = some declaration →
        ¬ tool.Delegable ctx registry.capabilityRegistry (tool.second.clock i) declaration)
      ∧ NoNewOrphans before registry
  := by
  obtain ⟨hnone, hsame⟩ | ⟨⟨i, declaration, hdec, hdel⟩, htoken⟩ :=
    tool.delegateWhatRemains_issues ctx registry.capabilityRegistry tool.second 0
      manifest.capabilities
  · simp only [Nat.zero_add] at hnone
    simp only [hsame, and_iff_right hnone]
  · rw [Nat.zero_add] at hdel
    apply iff_of_false (htoken.not_noNewOrphans hfresh)
    rintro ⟨hnone, -⟩
    apply hnone i declaration hdec hdel

theorem leavesNoOrphans_of_accept (hfresh : tool.Fresh ctx registry) {input : Json}
    {manifest : AgentManifest} {message : Text}
    (hacc : tool.accept ctx registry input = .ok (manifest, message)) :
  tool.LeavesNoOrphans ctx registry input
    ↔ tool.FirstChildClean ctx registry manifest
      ∧ ∀ after, tool.FirstRunFails ctx registry manifest message after →
        tool.SecondChildClean ctx registry after manifest
  := by
  unfold LeavesNoOrphans
  obtain ⟨hall, hdepth, hlimit, started, hstart⟩ | ⟨hnot, e, hstart⟩ :=
    tool.startFirst_cases hfresh.first manifest
  · rw [and_iff_right (.inr ⟨hall, hdepth, hlimit⟩)]
    rcases hran : tool.runChild tool.first manifest message started with ⟨result, ended⟩
    have hended : ∀ after, tool.FirstRunFails ctx registry manifest message after
        ↔ after = ended ∧ ∃ e, result.stopReason = .error e := by
      intro after
      simp [FirstRunFails, hstart, hran, eq_comm]
    by_cases hfails : ∃ e, result.stopReason = .error e
    · have hfresh' := hfresh.second manifest message ended ((hended ended).mpr ⟨rfl, hfails⟩)
      obtain ⟨e, hstop⟩ := hfails
      have hinv : tool.invoke ctx registry input
          = tool.retry ctx manifest message (childDepth ctx registry) e ended := by
        simp only [invoke, hacc, hstart, hran, hstop]
      simp only [hended, hstop, ExecutionStopReason.error.injEq, exists_eq', and_true, forall_eq,
        hinv, SecondChildClean]
      obtain ⟨hfree, answer, after, hretry⟩ | ⟨hfull, e', hretry⟩ :=
        tool.retry_cases hfresh' hdepth manifest message e
      · simp [hretry, hfree]
      · simp [hretry, hfull, noNewOrphans_delegateWhatRemains_iff hfresh']
    · have hinv : ∃ answer, tool.invoke ctx registry input = (.ok answer, ended) := by
        use tool.output tool.first result none
        simp only [invoke, hacc, hstart, hran]
        cases hstop : result.stopReason with
        | error e => exact (hfails ⟨e, hstop⟩).elim
        | _ => rfl
      obtain ⟨answer, hinv⟩ := hinv
      simp [hinv, hended, hfails]
  · have hinv : tool.invoke ctx registry input
        = (.error e, { registry with capabilityRegistry := (tool.delegate ctx tool.first
            manifest.name registry.capabilityRegistry 0 manifest.capabilities).1 }) := by
      simp only [invoke, hacc, hstart]
    have hnever : ∀ after, ¬ tool.FirstRunFails ctx registry manifest message after := by
      rintro after ⟨started, result, message, hstar, -⟩
      rw [hstart] at hstar
      cases hstar
    simp [hinv, noNewOrphans_delegate_iff hfresh.first, FirstChildClean, hnot, hnever]

/-- A call that fails leaves no orphaned tokens exactly when it is not admitted; or its first
declaration cannot be delegated; or all can and the child is admitted, and, if its run fails, the
second child is admitted or is given no token and the run has left none. -/
theorem leavesNoOrphans_iff (hfresh : tool.Fresh ctx registry) (input : Json) :
  tool.LeavesNoOrphans ctx registry input
    ↔ ∀ manifest message, tool.accept ctx registry input = .ok (manifest, message) →
      tool.FirstChildClean ctx registry manifest
        ∧ ∀ after, tool.FirstRunFails ctx registry manifest message after →
          tool.SecondChildClean ctx registry after manifest
  := by
  rcases hacc : tool.accept ctx registry input with e | ⟨manifest, message⟩
  · simp only [reduceCtorEq, false_implies, implies_true, iff_true]
    intro _ _
    simp only [invoke, hacc]
    intro h entry hentry _
    use entry
  · rw [leavesNoOrphans_of_accept hfresh hacc]
    simp

end SpawnAgentTool

def callerManifest : AgentManifest where
  name := "caller"
  model := "model"
  systemPrompt := .inline "Ask for help."
  capabilities := [.simple "spawn_child: [helper]", .simple "web_search"]
  budgetConfig := none

def callerRegistry : AgentRegistry :=
  ((AgentRegistry.newWithLimit 100).spawnWithId (plainSpawnEnv 0) callerManifest ⟨0⟩).2

def callerContext : InvocationContext where
  agentId := ⟨0⟩
  tokens := [⟨0⟩, ⟨1⟩]
  capabilityRegistry := callerRegistry.capabilityRegistry

/-- The manifest of a helper with the given capabilities. -/
def helperManifest (capabilities : List CapabilityDeclaration) : AgentManifest where
  name := "helper"
  model := "model"
  systemPrompt := .inline "Help."
  capabilities := capabilities
  budgetConfig := none

def plainDraws (childId : AgentId) (firstToken : Uuid) : ChildDraws where
  childId := childId
  tokenId i := firstToken + i
  clock _ _ := 0
  now := 0
  stopClock _ := 0

def helperTool (helper : AgentManifest) : SpawnAgentTool where
  parse := helper.readOnly
  canonicalize := some
  debug _ := []
  spawn := plainSpawnEnv 2
  spawnedAt := []
  spawnClock _ := 0
  first := plainDraws ⟨1⟩ 2
  second := plainDraws ⟨2⟩ 4
  execute _ _ _ registry := (⟨[], {}, 1, .complete⟩, registry)

def helperInput (helper : AgentManifest) : Json :=
  .obj [("manifest", .str helper.yaml), ("message", .str "Help me.")]

theorem fresh_helperTool (helper : AgentManifest) :
  (helperTool helper).Fresh callerContext callerRegistry
  := by
  constructor
  case first =>
    constructor
    case agent => rfl
    case caller =>
      change (⟨1⟩ : AgentId) ≠ ⟨0⟩
      decide
    case token =>
      intro i h entry hentry
      have htable : callerRegistry.capabilityRegistry.table
          = AList.insert ⟨1⟩ ⟨⟨0⟩, .issue 1 0 ⟨0⟩ .webSearch {}⟩
            (AList.insert ⟨0⟩ ⟨⟨0⟩, .issue 0 0 ⟨0⟩ (.spawnChild ["helper"]) {}⟩ ∅) := rfl
      have hlt : entry.token.id < 2 := by
        rw [htable] at hentry
        obtain ⟨-, rfl⟩ | ⟨-, hentry⟩ := Table.lookup_insert_eq_some hentry
        · exact Nat.one_lt_two
        · obtain ⟨-, rfl⟩ | ⟨-, hentry⟩ := Table.lookup_insert_eq_some hentry
          · exact Nat.two_pos
          · simp at hentry
      apply Nat.ne_of_lt
      apply Nat.lt_of_lt_of_le hlt (Nat.le_add_right 2 i)
  case second =>
    rintro manifest message after ⟨started, result, e, -, hran, hstop⟩
    cases hran
    cases hstop

theorem leavesNoOrphans_undelegable :
  (helperTool (helperManifest [.simple "tool: grep".toList])).Fresh callerContext callerRegistry
    ∧ (helperTool (helperManifest [.simple "tool: grep".toList])).LeavesNoOrphans callerContext
      callerRegistry (helperInput (helperManifest [.simple "tool: grep".toList]))
  := by
  refine ⟨fresh_helperTool _, ?_⟩
  rw [SpawnAgentTool.leavesNoOrphans_iff (fresh_helperTool _)]
  intro manifest message hacc
  have hman : manifest = helperManifest [.simple "tool: grep"] := by
    cases hacc
    rfl
  subst hman
  constructor
  · left
    rintro declaration ⟨⟩
    rw [SpawnAgentTool.delegable_iff rfl, not_not]
    rfl
  · rintro after ⟨started, result, e, -, hran, hstop⟩
    cases hran
    cases hstop

/-- A helper that needs a tool its caller does not have is not spawned, and its first token stays.
-/
theorem not_leavesNoOrphans_searching :
  ¬ (helperTool (helperManifest
      [.simple "web_search".toList, .simple "tool: grep".toList])).LeavesNoOrphans callerContext
    callerRegistry (helperInput (helperManifest
      [.simple "web_search".toList, .simple "tool: grep".toList]))
  := by
  intro hnone
  obtain ⟨old, hold, -⟩ := hnone _ rfl ⟨2⟩ ⟨⟨1⟩, .issue 2 0 ⟨1⟩ .webSearch {}⟩ rfl rfl
  have hbef : callerRegistry.capabilityRegistry.table.lookup ⟨2⟩ = none := rfl
  rw [hbef] at hold
  cases hold
