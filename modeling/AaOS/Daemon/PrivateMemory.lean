import AaOS.Daemon.Orphans
import AaOS.Daemon.SpawnChain

/-!
# Private memories of spawned agents

A spawned agent is to have no private memory, so a manifest that names `memory_store` is
refused.  But tokens are matched with the wildcard `*`: a child that declares all tools gets a
token that permits the store of memories when its caller has one.
-/

def memoryStore : Capability := .toolInvoke "memory_store"

def allTools : Capability := .toolInvoke "*"

/-- The store of memories is permitted by a token for it and by a token for all tools. -/
theorem CapabilityToken.capability_of_permits_memoryStore {canonicalize : Text → Option Text}
    {token : CapabilityToken} {now : DateTime}
    (hperm : token.permits canonicalize now memoryStore = true) :
  token.capability = memoryStore ∨ token.capability = allTools
  := by
  have hmatch := capabilityMatches_of_permits hperm
  unfold capabilityMatches memoryStore at hmatch
  cases hcap : token.capability with
  | toolInvoke granted =>
    simp only [hcap, Bool.or_eq_true, beq_iff_eq] at hmatch
    obtain rfl | rfl := hmatch
    · left
      rfl
    · right
      rfl
  | _ => simp [hcap] at hmatch

theorem SpawnAgentTool.memoryStore_not_mem_declared {tool : SpawnAgentTool}
    {ctx : InvocationContext} {registry : AgentRegistry} {input : Json} {manifest : AgentManifest}
    {message : Text} (hacc : tool.accept ctx registry input = .ok (manifest, message)) :
  memoryStore ∉ tool.declared manifest
  := by
  intro hmem
  obtain ⟨declaration, hdec, hparse⟩ := List.mem_filterMap.mp hmem
  obtain ⟨-, hasks⟩ := accept_eq_ok hacc
  rw [List.any_eq_false] at hasks
  apply hasks declaration hdec
  simp only [asksForMemoryStore, hparse, memoryStore, beq_self_eq_true]

namespace SpawnChain

variable {registry : AgentRegistry} {s : State}

theorem memoryStore_not_mem_declared (hreach : Reaches ⟨registry, []⟩ s) :
  ∀ child ∈ s.children, memoryStore ∉ child.declared
  := by
  induction hreach with
  | refl => simp
  | tail _ hstep ih =>
    cases hstep with
    | accept hcall hacc hpar hnew =>
      rw [List.forall_mem_cons]
      exact ⟨SpawnAgentTool.memoryStore_not_mem_declared hacc, ih⟩
    | @retry child id hchild hnew =>
      rw [List.forall_mem_cons]
      exact ⟨ih child hchild, ih⟩
    | _ => apply ih

/-- The handle belongs to the agent and permits the store of memories, at some time. -/
def HoldsMemoryStore (registry : AgentRegistry) (id : AgentId) : Prop :=
  ∃ canonicalize now h, registry.capabilityRegistry.permits canonicalize now h id memoryStore = true

/-- In a chain of agents none of which declares all tools, no agent has a token for the store of
memories. -/
theorem not_holdsMemoryStore (hreaches : Reaches ⟨registry, []⟩ s)
    (hplain : ∀ child ∈ s.children, allTools ∉ child.declared) :
  ∀ child ∈ s.children, ¬ HoldsMemoryStore s.registry child.id
  := by
  rintro child hchild ⟨canonicalize, now, h, hperm⟩
  obtain ⟨entry, hentry, howner, hperm⟩ :=
    s.registry.capabilityRegistry.permits_eq_true_iff.mp hperm
  have hdec := ((Consistent.init registry).reaches hreaches).token h entry hentry child
    hchild howner.symm
  obtain hmem | htools := CapabilityToken.capability_of_permits_memoryStore hperm
  · rw [hmem] at hdec
    apply memoryStore_not_mem_declared hreaches child hchild hdec
  · rw [htools] at hdec
    apply hplain child hchild hdec

def masterManifest (approvalRequired : List Text) : AgentManifest :=
  { callerManifest with
    capabilities := [.simple "spawn_child: [helper]", .simple "tool: *"]
    approvalRequired }

def masterRegistry (approvalRequired : List Text) : AgentRegistry :=
  ((AgentRegistry.newWithLimit 100).spawnWithId (plainSpawnEnv 0) (masterManifest approvalRequired)
    ⟨0⟩).2

def helped (approvalRequired : List Text) (helper : AgentManifest) : State where
  registry :=
    ((helperTool helper).startFirst callerContext helper 1 (masterRegistry approvalRequired)).2
  children :=
    [(helperTool helper).firstChild callerContext helper (masterManifest approvalRequired)]

theorem reaches_helped {approvalRequired : List Text} {helper : AgentManifest} {message : Text}
    (hacc : (helperTool helper).accept callerContext (masterRegistry approvalRequired)
      (helperInput helper) = .ok (helper, message)) :
  Reaches ⟨masterRegistry approvalRequired, []⟩ (helped approvalRequired helper)
  := by
  have htable : (masterRegistry approvalRequired).capabilityRegistry.table
      = AList.insert ⟨1⟩ ⟨⟨0⟩, .issue 1 0 ⟨0⟩ allTools {}⟩
        (AList.insert ⟨0⟩ ⟨⟨0⟩, .issue 0 0 ⟨0⟩ (.spawnChild ["helper"]) {}⟩ ∅) := rfl
  have hnew : State.Unknown ⟨masterRegistry approvalRequired, []⟩
      (helperTool helper).first.childId := by
    constructor
    case agent => rfl
    case token =>
      intro h entry hentry howner
      rw [htable] at hentry
      obtain ⟨-, rfl⟩ | ⟨-, hentry⟩ := Table.lookup_insert_eq_some hentry
      · cases howner
      · obtain ⟨-, rfl⟩ | ⟨-, hentry⟩ := Table.lookup_insert_eq_some hentry
        · cases howner
        · simp at hentry
    case child => simp
    case parent => simp
  apply reaches_of_accept hacc rfl hnew

theorem not_holdsMemoryStore_grep :
  Reaches ⟨masterRegistry [], []⟩ (helped [] (helperManifest [.simple "tool: grep".toList]))
    ∧ (∀ child ∈ (helped [] (helperManifest [.simple "tool: grep".toList])).children,
      allTools ∉ child.declared)
    ∧ ¬ HoldsMemoryStore (helped [] (helperManifest [.simple "tool: grep".toList])).registry ⟨1⟩
  := by
  have hreach : Reaches ⟨masterRegistry [], []⟩
      (helped [] (helperManifest [.simple "tool: grep"])) :=
    reaches_helped rfl
  have hplain : ∀ child ∈ (helped [] (helperManifest [.simple "tool: grep"])).children,
      allTools ∉ child.declared := by
    intro child hchild
    obtain rfl := List.mem_singleton.mp hchild
    change allTools ∉ [Capability.toolInvoke "grep"]
    simp [allTools]
  refine ⟨hreach, hplain, ?_⟩
  apply not_holdsMemoryStore hreach hplain _ (List.mem_singleton.mpr rfl)

/-- A helper that declares all tools, spawned by an agent that has them, has a token for the store
of memories. -/
theorem exists_holdsMemoryStore_allTools :
  ∃ s, Reaches ⟨masterRegistry [], []⟩ s
    ∧ ∃ child ∈ s.children, (s.registry.agents.lookup child.id).isSome = true
      ∧ HoldsMemoryStore s.registry child.id
  := by
  use helped [] (helperManifest [.simple "tool: *"]), reaches_helped rfl
  use (helperTool (helperManifest [.simple "tool: *"])).firstChild callerContext
    (helperManifest [.simple "tool: *"]) (masterManifest [])
  exact ⟨List.mem_singleton.mpr rfl, rfl, some, 0, ⟨2⟩, rfl⟩

end SpawnChain
