import Mathlib.Logic.Relation
import AaOS.Daemon.SpawnTool
import AaOS.Runtime.FailedSpawn

/-!
# Chains of spawned agents

Agents spawn children, the children spawn children of their own, and meanwhile other agents are
spawned and stopped and tokens are used and revoked.  Each operation is a step: a call draws a
child, capabilities are delegated to it, and the child is spawned.
-/

open AgentRegistry Table List CapabilityRegistry Relation.ReflTransGen

/-- A child for which a call has been admitted, and the agent that makes the call. -/
structure SpawnedChild where
  id : AgentId
  manifest : AgentManifest
  declared : List Capability
  parent : AgentId
  parentManifest : AgentManifest

def SpawnAgentTool.firstChild (tool : SpawnAgentTool) (ctx : InvocationContext)
    (manifest parentManifest : AgentManifest) : SpawnedChild :=
  ⟨tool.first.childId, manifest, tool.declared manifest, ctx.agentId, parentManifest⟩

inductive SpawnRequest where
  | spawnAgent (input : Json)
  | spawnAgents (input : Json)

def SpawnRequest.Calls (single : Json) : SpawnRequest → Prop
  | spawnAgent input => single = input
  | spawnAgents input =>
    ∃ batchCap registry calls, spawnAgentsCalls batchCap registry input = .ok calls
      ∧ single ∈ calls

namespace SpawnChain

/-- The registry, and the children for which calls have been admitted. -/
structure State where
  registry : AgentRegistry
  children : List SpawnedChild

namespace State

def withCapabilities (s : State) (capabilities : CapabilityRegistry) : State :=
  { s with registry := { s.registry with capabilityRegistry := capabilities } }

structure Unknown (s : State) (id : AgentId) : Prop where
  agent : s.registry.agents.lookup id = none
  token : ∀ h entry, s.registry.capabilityRegistry.table.lookup h = some entry →
    entry.agentId ≠ id
  child : ∀ child ∈ s.children, child.id ≠ id
  parent : ∀ child ∈ s.children, child.parent ≠ id

end State

/-- One operation. -/
inductive Step (s : State) : State → Prop
  | accept {tool : SpawnAgentTool} {ctx : InvocationContext} {request : SpawnRequest}
      {input manifest parentManifest message id} (hcall : request.Calls input)
      (haccept : tool.accept ctx s.registry input = .ok (manifest, message))
      (hparent : s.registry.getManifest ctx.agentId = .ok parentManifest) (hnew : s.Unknown id) :
      Step s { s with
        children :=
          ⟨id, manifest, tool.declared manifest, ctx.agentId, parentManifest⟩ :: s.children }
  | retry {child id} (hchild : child ∈ s.children) (hnew : s.Unknown id) :
      Step s { s with children := { child with id := id } :: s.children }
  | delegate {child : SpawnedChild} {capability} (hchild : child ∈ s.children)
      (hdeclared : capability ∈ child.declared) (canonicalize tokenId parentHandle) :
      Step s (s.withCapabilities (s.registry.capabilityRegistry.narrowWithCapability canonicalize
        tokenId parentHandle child.parent child.id capability {}).1)
  | publish {child} (hchild : child ∈ s.children) (env handles depth) :
      Step s { s with
        registry := (s.registry.spawnWithTokenHandles env child.id child.manifest handles depth
          (some child.parent)).2 }
  | spawn (env) {call : SpawnCall} (hother : ∀ child ∈ s.children, child.id ≠ call.id) :
      Step s { s with registry := (call.run env s.registry).2 }
  | stop (clock id) :
      Step s { s with registry := (s.registry.stopSync clock id).2 }
  | update {id} {process updated : AgentProcess}
      (hlookup : s.registry.agents.lookup id = some process)
      (hmanifest : updated.manifest = process.manifest) :
      Step s { s with
        registry := { s.registry with agents := s.registry.agents.insert id updated } }
  | authorize (canonicalize now h agentId requested) :
      Step s (s.withCapabilities
        (s.registry.capabilityRegistry.authorizeAndRecord canonicalize now h agentId requested).1)
  | revoke (clock tokenId) :
      Step s (s.withCapabilities (s.registry.capabilityRegistry.revoke clock tokenId).1)
  | revokeAll (clock agentId) :
      Step s (s.withCapabilities (s.registry.capabilityRegistry.revokeAllForAgent clock agentId).1)

/-- Any number of operations. -/
abbrev Reaches : State → State → Prop := Relation.ReflTransGen Step

/-! ### What the operations do to the tables -/

/-- Every entry was in the table before, with the same owner and the same capability. -/
def Retains (before after : CapabilityRegistry) : Prop :=
  ∀ h entry, after.table.lookup h = some entry →
    ∃ old, before.table.lookup h = some old ∧ old.agentId = entry.agentId
      ∧ old.token.capability = entry.token.capability

namespace Retains

theorem refl (capabilities : CapabilityRegistry) :
  Retains capabilities capabilities
  := by
  intro h entry hentry
  use entry

theorem trans {first second third : CapabilityRegistry} (hfirst : Retains first second)
    (hsec : Retains second third) :
  Retains first third
  := by
  intro h entry hentry
  obtain ⟨middle, hmid, howner, hcap⟩ := hsec h entry hentry
  obtain ⟨old, hold, howner', hcap'⟩ := hfirst h middle hmid
  exact ⟨old, hold, howner'.trans howner, hcap'.trans hcap⟩

variable (capabilities : CapabilityRegistry)

theorem authorizeAndRecord (canonicalize : Text → Option Text) (now : DateTime)
    (h : CapabilityHandle) (agentId : AgentId) (requested : Capability) :
  Retains capabilities
    (capabilities.authorizeAndRecord canonicalize now h agentId requested).1
  := by
  unfold CapabilityRegistry.authorizeAndRecord
  cases hlook : capabilities.table.lookup h with
  | none => apply refl
  | some entry =>
    cases hres : entry.authorizeAndRecord canonicalize now agentId requested with
    | error denied =>
      simp only [hres]
      apply refl
    | ok used =>
      obtain ⟨-, -, rfl⟩ := OwnedEntry.authorizeAndRecord_eq_ok hres
      simp only [hres]
      intro h' entry' hentry'
      obtain ⟨rfl, rfl⟩ | ⟨-, hold⟩ := lookup_insert_eq_some hentry'
      · exact ⟨entry, hlook, rfl, rfl⟩
      · exact ⟨entry', hold, rfl, rfl⟩

theorem revokeLoop (selected : OwnedEntry → Bool) (clock : CapabilityHandle → DateTime) :
  Retains capabilities (capabilities.revokeLoop selected clock).1
  := by
  intro h entry hentry
  rw [lookup_revokeLoop, Option.map_eq_some_iff] at hentry
  obtain ⟨old, hold, rfl⟩ := hentry
  exact ⟨old, hold, (OwnedEntry.swept_agentId ..).symm, (OwnedEntry.swept_capability ..).symm⟩

theorem revoke (clock : CapabilityHandle → DateTime) (tokenId : Uuid) :
  Retains capabilities (capabilities.revoke clock tokenId).1
  := by
  intro h entry hentry
  rw [lookup_revoke, ← lookup_revokeLoop] at hentry
  apply revokeLoop capabilities _ clock h entry hentry

theorem revokeAllForAgent (clock : CapabilityHandle → DateTime) (agentId : AgentId) :
  Retains capabilities (capabilities.revokeAllForAgent clock agentId).1
  := by
  apply revokeLoop

theorem removeAgent (agentId : AgentId) :
  Retains capabilities (capabilities.removeAgent agentId)
  := by
  intro h entry hentry
  simp only [CapabilityRegistry.removeAgent, lookup_retain, Option.filter_eq_some_iff]
    at hentry
  exact ⟨entry, hentry.1, rfl, rfl⟩

theorem stopSync (registry : AgentRegistry) (clock : CapabilityHandle → DateTime) (id : AgentId) :
  Retains registry.capabilityRegistry (registry.stopSync clock id).2.capabilityRegistry
  := by
  unfold AgentRegistry.stopSync
  cases hlook : registry.agents.lookup id with
  | none => apply refl
  | some process =>
    cases hstop : stopProcess process with
    | error e =>
      simp only [hstop]
      apply refl
    | ok stopped =>
      simp only [hstop, AgentRegistry.removeAgent, hlook]
      apply trans (revokeAllForAgent _ clock id) (removeAgent _ id)

end Retains

theorem lookup_of_lookup_issueAll {env : SpawnEnv} {id : AgentId} {caps : List Capability}
    {capabilities : CapabilityRegistry} {i : Nat} {h : CapabilityHandle} {entry : OwnedEntry}
    (hentry : (issueAll env id capabilities i caps).1.table.lookup h = some entry) :
  entry.agentId = id ∨ capabilities.table.lookup h = some entry
  := by
  induction caps generalizing capabilities i with
  | nil =>
    right
    apply hentry
  | cons cap rest ih =>
    obtain howner | hins := ih hentry
    · left
      apply howner
    · obtain ⟨-, rfl⟩ | ⟨-, hold⟩ := lookup_insert_eq_some hins
      · left
        rfl
      · right
        apply hold

section Spawned

variable {env : SpawnEnv} {registry : AgentRegistry} {call : SpawnCall}

theorem capabilityRegistry_run (env : SpawnEnv) (registry : AgentRegistry) (call : SpawnCall) :
  (call.run env registry).2.capabilityRegistry = registry.capabilityRegistry
    ∨ (call.run env registry).2.capabilityRegistry
      = (issueAll env call.id registry.capabilityRegistry 0 (call.issued env)).1
  := by
  obtain ⟨-, e, hrun⟩ | ⟨-, process, hstate, -, hrun⟩ := call.run_cases env registry
  · left
    rw [hrun]
  · right
    rw [hrun, publish_eq hstate]
    cases registry.agents.lookup call.id <;> simp [dropSlot]

/-- A token after a spawn was there before, or belongs to the agent of the call. -/
theorem lookup_of_lookup_run {h : CapabilityHandle} {entry : OwnedEntry}
    (hentry : (call.run env registry).2.capabilityRegistry.table.lookup h = some entry) :
  entry.agentId = call.id ∨ registry.capabilityRegistry.table.lookup h = some entry
  := by
  obtain hsame | hissue := capabilityRegistry_run env registry call
  · right
    rwa [hsame] at hentry
  · rw [hissue] at hentry
    apply lookup_of_lookup_issueAll hentry

theorem capabilityRegistry_spawnWithTokenHandles (env : SpawnEnv) (registry : AgentRegistry)
    (id : AgentId) (manifest : AgentManifest) (handles : List CapabilityHandle) (depth : UInt32)
    (parent : Option AgentId) :
  (registry.spawnWithTokenHandles env id manifest handles depth parent).2.capabilityRegistry
    = registry.capabilityRegistry
  := by
  obtain hsame | hsame := capabilityRegistry_run env registry
    (.spawnWithTokenHandles id manifest handles depth parent)
  · apply hsame
  · apply hsame

variable (call) in
theorem agent_of_lookup_run {id : AgentId} {process : AgentProcess}
    (hproc : (call.run env registry).2.agents.lookup id = some process) :
  registry.agents.lookup id = some process
    ∨ (id = call.id ∧ registry.agents.lookup id = none ∧ process.manifest = call.manifest)
  := by
  obtain ⟨-, e, hrun⟩ | ⟨-, started, hstate, hman, hrun⟩ := call.run_cases env registry
  · left
    rwa [hrun] at hproc
  · rw [hrun, publish_eq hstate] at hproc
    cases hlook : registry.agents.lookup call.id with
    | some existing =>
      left
      simpa [hlook, dropSlot] using hproc
    | none =>
      simp only [hlook] at hproc
      obtain ⟨rfl, rfl⟩ | ⟨-, hold⟩ := lookup_insert_eq_some hproc
      · right
        exact ⟨rfl, hlook, by rw [wireChannels_manifest, ← hman]⟩
      · left
        simpa using hold

/-- An agent that is there after a stop was there before. -/
theorem agent_of_lookup_stopSync {clock : CapabilityHandle → DateTime} {id stopped : AgentId}
    {process : AgentProcess}
    (hproc : (registry.stopSync clock stopped).2.agents.lookup id = some process) :
  registry.agents.lookup id = some process
  := by
  unfold AgentRegistry.stopSync at hproc
  cases hlook : registry.agents.lookup stopped with
  | none => simpa [hlook] using hproc
  | some stopping =>
    cases hstop : stopProcess stopping with
    | error e => simpa [hlook, hstop] using hproc
    | ok _ =>
      simp only [hlook, hstop, AgentRegistry.removeAgent] at hproc
      apply lookup_of_lookup_erase hproc

end Spawned

/-! ### What holds in every state -/

/-- The children have different identifiers and tokens for what they declare; they and their parents
have their manifests. -/
structure Consistent (s : State) : Prop where
  distinct : ∀ child ∈ s.children, ∀ child' ∈ s.children, child.id = child'.id → child = child'
  token : ∀ h entry, s.registry.capabilityRegistry.table.lookup h = some entry →
    ∀ child ∈ s.children, child.id = entry.agentId → entry.token.capability ∈ child.declared
  agent : ∀ child ∈ s.children, ∀ process, s.registry.agents.lookup child.id = some process →
    process.manifest = child.manifest
  parent : ∀ parent ∈ s.children, ∀ child ∈ s.children, child.parent = parent.id →
    child.parentManifest = parent.manifest

namespace Consistent

variable {s : State} (hconsistent : Consistent s)

theorem init (registry : AgentRegistry) :
  Consistent ⟨registry, []⟩
  := by
  constructor
  case distinct => simp
  case token => simp
  case agent => simp
  case parent => simp

include hconsistent

theorem draw {child : SpawnedChild} (hnew : s.Unknown child.id) (hself : child.parent ≠ child.id)
    (hpar : ∀ parent ∈ s.children, child.parent = parent.id →
      child.parentManifest = parent.manifest) :
  Consistent { s with children := child :: s.children }
  := by
  constructor
  case distinct =>
    simp only [forall_mem_cons, implies_true, true_and]
    constructor
    · intro other hother hid
      exact (hnew.child other hother hid.symm).elim
    · intro other hother
      refine ⟨?_, hconsistent.distinct other hother⟩
      intro hid
      exact (hnew.child other hother hid).elim
  case token =>
    intro h entry hentry
    rw [forall_mem_cons]
    constructor
    · intro hid
      exact (hnew.token h entry hentry hid.symm).elim
    · apply hconsistent.token h entry hentry
  case agent =>
    rw [forall_mem_cons]
    constructor
    · intro process hproc
      cases hnew.agent.symm.trans hproc
    · apply hconsistent.agent
  case parent =>
    simp only [forall_mem_cons]
    refine ⟨⟨fun hid => (hself hid).elim, ?_⟩, ?_⟩
    · intro other hother hid
      exact (hnew.parent other hother hid).elim
    · intro parent hmem
      exact ⟨hpar parent hmem, hconsistent.parent parent hmem⟩

theorem retain {registry : AgentRegistry}
    (hret : Retains s.registry.capabilityRegistry registry.capabilityRegistry)
    (hagent : ∀ child ∈ s.children, ∀ process, registry.agents.lookup child.id = some process →
      process.manifest = child.manifest) :
  Consistent ⟨registry, s.children⟩
  := by
  constructor
  case distinct => apply hconsistent.distinct
  case token =>
    intro h entry hentry child hchild hid
    obtain ⟨old, hold, howner, hcap⟩ := hret h entry hentry
    rw [← hcap]
    apply hconsistent.token h old hold child hchild (hid.trans howner.symm)
  case agent => apply hagent
  case parent => apply hconsistent.parent

theorem delegate {child : SpawnedChild} {capability : Capability} (hchild : child ∈ s.children)
    (hdec : capability ∈ child.declared) (canonicalize : Text → Option Text)
    (tokenId : Uuid) (parentHandle : CapabilityHandle) :
  Consistent (s.withCapabilities (s.registry.capabilityRegistry.narrowWithCapability canonicalize
    tokenId parentHandle child.parent child.id capability {}).1)
  := by
  constructor
  case distinct => apply hconsistent.distinct
  case token =>
    intro h entry hentry child' hchild' hid
    obtain hsame | ⟨token, rfl, hins⟩ :=
      s.registry.capabilityRegistry.narrowWithCapability_cases canonicalize tokenId parentHandle
        child.parent child.id capability {}
    · rw [hsame] at hentry
      apply hconsistent.token h entry hentry child' hchild' hid
    · rw [hins] at hentry
      obtain ⟨-, rfl⟩ | ⟨-, hold⟩ := lookup_insert_eq_some hentry
      · rwa [hconsistent.distinct child' hchild' child hchild hid]
      · apply hconsistent.token h entry hold child' hchild' hid
  case agent => apply hconsistent.agent
  case parent => apply hconsistent.parent

theorem step {s' : State} (hstep : Step s s') :
  Consistent s'
  := by
  cases hstep with
  | @accept tool ctx request input manifest parentManifest message id hcall hacc hpar hnew =>
    obtain ⟨process, hproc, rfl⟩ := getManifest_eq_ok.mp hpar
    apply hconsistent.draw hnew
    · intro (heq : ctx.agentId = id)
      rw [heq, hnew.agent] at hproc
      cases hproc
    · intro parent hmem hid
      apply hconsistent.agent parent hmem process
      rwa [← hid]
  | @retry child id hchild hnew =>
    apply hconsistent.draw hnew (hnew.parent child hchild)
    intro parent hmem hid
    apply hconsistent.parent parent hmem child hchild hid
  | delegate hchild hdec canonicalize tokenId parentHandle =>
    apply hconsistent.delegate hchild hdec
  | @publish child hchild env handles depth =>
    apply hconsistent.retain
    · rw [capabilityRegistry_spawnWithTokenHandles]
      apply Retains.refl
    · intro child' hchild' process hproc
      obtain hold | ⟨hid, -, hman⟩ := agent_of_lookup_run (.spawnWithTokenHandles child.id
        child.manifest handles depth (some child.parent)) hproc
      · apply hconsistent.agent child' hchild' process hold
      · rw [hman, hconsistent.distinct child' hchild' child hchild hid]
        rfl
  | @spawn env call hother =>
    constructor
    case distinct => apply hconsistent.distinct
    case token =>
      intro h entry hentry child hchild hid
      obtain howner | hold := lookup_of_lookup_run hentry
      · exact (hother child hchild (hid.trans howner)).elim
      · apply hconsistent.token h entry hold child hchild hid
    case agent =>
      intro child hchild process hproc
      obtain hold | ⟨hid, -⟩ := agent_of_lookup_run call hproc
      · apply hconsistent.agent child hchild process hold
      · exact (hother child hchild hid).elim
    case parent => apply hconsistent.parent
  | stop clock id =>
    apply hconsistent.retain
    · apply Retains.stopSync
    · intro child hchild process hproc
      apply hconsistent.agent child hchild process (agent_of_lookup_stopSync hproc)
  | @update id process updated hlook hman =>
    apply hconsistent.retain
    · apply Retains.refl
    · intro child hchild process' hproc'
      obtain ⟨rfl, rfl⟩ | ⟨-, hold⟩ := lookup_insert_eq_some hproc'
      · rw [hman]
        apply hconsistent.agent child hchild process hlook
      · apply hconsistent.agent child hchild process' hold
  | authorize canonicalize now h agentId requested =>
    apply hconsistent.retain
    · apply Retains.authorizeAndRecord
    · apply hconsistent.agent
  | revoke clock tokenId =>
    apply hconsistent.retain
    · apply Retains.revoke
    · apply hconsistent.agent
  | revokeAll clock agentId =>
    apply hconsistent.retain
    · apply Retains.revokeAllForAgent
    · apply hconsistent.agent

theorem reaches {t : State} (hreach : Reaches s t) :
  Consistent t
  := by
  induction hreach with
  | refl => apply hconsistent
  | tail _ hstep ih => apply ih.step hstep

end Consistent

/-! ### Calls that run alone -/

section Calls

variable {tool : SpawnAgentTool} {ctx : InvocationContext} {s : State} {child : SpawnedChild}
  {draws : ChildDraws}

structure DrawnBy (s : State) (ctx : InvocationContext) (draws : ChildDraws)
    (child : SpawnedChild) : Prop where
  mem : child ∈ s.children
  id : child.id = draws.childId
  parent : child.parent = ctx.agentId

theorem DrawnBy.withCapabilities (hdrawn : DrawnBy s ctx draws child)
    (capabilities : CapabilityRegistry) :
  DrawnBy (s.withCapabilities capabilities) ctx draws child
  := ⟨hdrawn.mem, hdrawn.id, hdrawn.parent⟩

theorem DrawnBy.delegate (hdrawn : DrawnBy s ctx draws child) {token : CapabilityToken}
    {canonicalize : Text → Option Text} {tokenId : Uuid} {h : CapabilityHandle}
    (hdec : token.capability ∈ child.declared)
    (hnarr : s.registry.capabilityRegistry.narrowWithCapability canonicalize tokenId h
        ctx.agentId draws.childId token.capability {}
      = ((s.registry.capabilityRegistry.insert draws.childId token).1,
        some ⟨s.registry.capabilityRegistry.nextId⟩)) :
  Reaches s
    (s.withCapabilities (s.registry.capabilityRegistry.insert draws.childId token).1)
  := by
  have hstep := Step.delegate hdrawn.mem hdec canonicalize tokenId h
  rw [hdrawn.id, hdrawn.parent, hnarr] at hstep
  apply single hstep

theorem DrawnBy.reaches_delegate (hdrawn : DrawnBy s ctx draws child) (childName : Text) (i : Nat)
    {declarations : List CapabilityDeclaration}
    (hdec : ∀ declaration ∈ declarations, ∀ capability,
      parseCapability tool.spawn.toLowercase declaration = some capability →
        capability ∈ child.declared) :
  Reaches s (s.withCapabilities
    (tool.delegate ctx draws childName s.registry.capabilityRegistry i declarations).1)
  := by
  induction declarations generalizing s i with
  | nil => apply Relation.ReflTransGen.refl
  | cons declaration rest ih =>
    rw [forall_mem_cons] at hdec
    obtain ⟨-, e, hrun⟩ | ⟨-, h, token, hissue, hrun⟩ :=
      tool.delegate_cons ctx s.registry.capabilityRegistry draws childName i declaration rest
    · rw [hrun]
      apply Relation.ReflTransGen.refl
    · rw [hrun]
      apply Relation.ReflTransGen.trans (hdrawn.delegate (hdec.1 _ hissue.parse) hissue.narrow)
      apply ih (hdrawn.withCapabilities _) (i + 1) hdec.2

theorem DrawnBy.reaches_spawnChild (hdrawn : DrawnBy s ctx draws child) (depth : UInt32)
    (handles : List CapabilityHandle) :
  Reaches s
    ⟨(tool.spawnChild ctx draws child.manifest depth s.registry handles).2, s.children⟩
  := by
  have hstep := Step.publish hdrawn.mem
    { tool.spawn with tokenId := draws.tokenId, now := draws.now } handles depth
  rw [hdrawn.id, hdrawn.parent] at hstep
  apply single hstep

theorem mem_declared (tool : SpawnAgentTool) (manifest : AgentManifest) :
  ∀ declaration ∈ manifest.capabilities, ∀ capability,
    parseCapability tool.spawn.toLowercase declaration = some capability →
      capability ∈ tool.declared manifest
  := by
  intro declaration hmem capability hparse
  exact mem_filterMap.mpr ⟨declaration, hmem, hparse⟩

theorem DrawnBy.reaches_startFirst (hdrawn : DrawnBy s ctx tool.first child)
    (hdec : child.declared = tool.declared child.manifest) (depth : UInt32) :
  Reaches s ⟨(tool.startFirst ctx child.manifest depth s.registry).2, s.children⟩
  := by
  have hdel := hdrawn.reaches_delegate child.manifest.name 0
    (hdec ▸ mem_declared tool child.manifest)
  unfold SpawnAgentTool.startFirst
  rcases hres : tool.delegate ctx tool.first child.manifest.name s.registry.capabilityRegistry 0
    child.manifest.capabilities with ⟨capabilities, e | handles⟩
  · rw [hres] at hdel
    apply hdel
  · rw [hres] at hdel
    apply Relation.ReflTransGen.trans hdel
    apply (hdrawn.withCapabilities capabilities).reaches_spawnChild

theorem reaches_of_accept {input : Json} {manifest parentManifest : AgentManifest} {message : Text}
    (hacc : tool.accept ctx s.registry input = .ok (manifest, message))
    (hpar : s.registry.getManifest ctx.agentId = .ok parentManifest)
    (hfirst : s.Unknown tool.first.childId) :
  Reaches s
    ⟨(tool.startFirst ctx manifest (SpawnAgentTool.childDepth ctx s.registry) s.registry).2,
      tool.firstChild ctx manifest parentManifest :: s.children⟩
  := by
  let child := tool.firstChild ctx manifest parentManifest
  have hcall : SpawnRequest.Calls input (.spawnAgent input) := rfl
  have hdrawn : DrawnBy ⟨s.registry, child :: s.children⟩ ctx tool.first child :=
    ⟨mem_cons_self, rfl, rfl⟩
  apply head (.accept hcall hacc hpar hfirst)
  apply hdrawn.reaches_startFirst rfl

end Calls

end SpawnChain
