import AaOS.Runtime.Spawn

/-!
# Failed spawns

A spawn whose identifier is in use fails at its last step.  By then it has issued the
capabilities of its manifest, and it has replaced the channels of the agent that is there.
It leaves no trace exactly when it fails before, or when there are no capabilities to issue
and no router is set.
-/

open AgentRegistry

/-- A call of one of the operations that spawn an agent. -/
inductive SpawnCall where
  | spawn (manifest : AgentManifest) (id : AgentId)
  | spawnWithId (manifest : AgentManifest) (id : AgentId)
  | spawnWithTokenHandles (id : AgentId) (manifest : AgentManifest)
      (capabilities : List CapabilityHandle) (depth : UInt32) (parent : Option AgentId)

namespace SpawnCall

variable (env : SpawnEnv) (registry : AgentRegistry)

/-- The result of a call, and the registry after it. -/
def run : SpawnCall → Except CoreError Unit × AgentRegistry
  | spawn manifest id =>
    let (result, after) := registry.spawn env manifest id
    (result.map (fun _ => ()), after)
  | spawnWithId manifest id =>
    let (result, after) := registry.spawnWithId env manifest id
    (result.map (fun _ => ()), after)
  | spawnWithTokenHandles id manifest capabilities depth parent =>
    registry.spawnWithTokenHandles env id manifest capabilities depth parent

/-- The identifier of the agent. -/
def id : SpawnCall → AgentId
  | spawn _ id | spawnWithId _ id | spawnWithTokenHandles id .. => id

/-- The manifest of the agent. -/
def manifest : SpawnCall → AgentManifest
  | spawn manifest _ | spawnWithId manifest _ | spawnWithTokenHandles _ manifest .. => manifest

/-- The capabilities that the call issues. -/
def issued : SpawnCall → List Capability
  | spawn manifest id | spawnWithId manifest id => AgentRegistry.grants env id manifest
  | spawnWithTokenHandles .. => []

def depth : SpawnCall → UInt32
  | spawn .. | spawnWithId .. => 0
  | spawnWithTokenHandles _ _ _ depth _ => depth

def given : SpawnCall → List CapabilityHandle
  | spawn .. | spawnWithId .. => []
  | spawnWithTokenHandles _ _ capabilities _ _ => capabilities

def process (capabilities : List CapabilityHandle) (now : UInt64) : SpawnCall → AgentProcess
  | spawn manifest _ =>
    { AgentProcess.new manifest capabilities now with persistentIdentity := false }
  | spawnWithId manifest _ =>
    { AgentProcess.new manifest capabilities now with persistentIdentity := true }
  | spawnWithTokenHandles _ manifest _ depth parent =>
    { AgentProcess.new manifest capabilities now with depth, parentAgent := parent }

/-- The call is refused before it changes anything. -/
def Refused : SpawnCall → Prop
  | spawn .. | spawnWithId .. => registry.maxAgents ≤ registry.activeCount
  | spawnWithTokenHandles _ _ _ depth _ =>
    maxSpawnDepth < depth ∨ registry.maxAgents ≤ registry.activeCount

instance (call : SpawnCall) : Decidable (call.Refused registry) :=
  match call with
  | spawn .. | spawnWithId .. =>
    inferInstanceAs (Decidable (registry.maxAgents ≤ registry.activeCount))
  | spawnWithTokenHandles _ _ _ depth _ =>
    inferInstanceAs
      (Decidable (maxSpawnDepth < depth ∨ registry.maxAgents ≤ registry.activeCount))

variable (capabilities : List CapabilityHandle) (now : UInt64) (call : SpawnCall)

@[simp]
theorem process_state :
  (call.process capabilities now).state = .starting
  := by
  cases call <;> rfl

@[simp]
theorem process_depth :
  (call.process capabilities now).depth = call.depth
  := by
  cases call <;> rfl

@[simp]
theorem process_capabilities :
  (call.process capabilities now).capabilities = capabilities
  := by
  cases call <;> rfl

theorem refused_iff {registry : AgentRegistry} {call : SpawnCall} :
  call.Refused registry
    ↔ maxSpawnDepth < call.depth ∨ registry.maxAgents ≤ registry.activeCount
  := by
  have hzero : ¬ maxSpawnDepth < 0 := by decide
  cases call <;> simp [Refused, depth, hzero]

end SpawnCall

structure SameTables (before after : AgentRegistry) : Prop where
  agents : after.agents = before.agents
  activeCount : after.activeCount = before.activeCount
  capabilities : after.capabilityRegistry.table = before.capabilityRegistry.table
  channels : after.router.map (·.channels) = before.router.map (·.channels)

/-- A call that fails leaves the tables as they were. -/
def SpawnCall.LeavesNoTrace (env : SpawnEnv) (registry : AgentRegistry) (call : SpawnCall) :
    Prop :=
  ∀ e, (call.run env registry).1 = .error e → SameTables registry (call.run env registry).2

/-- The identifiers that are drawn for tokens are not those of tokens in the table. -/
def SpawnEnv.FreshFor (env : SpawnEnv) (capabilities : CapabilityRegistry) : Prop :=
  ∀ (i : Nat) (h : CapabilityHandle) (entry : OwnedEntry),
    capabilities.table.lookup h = some entry → entry.token.id ≠ env.tokenId i

section Trace

variable {env : SpawnEnv} {registry : AgentRegistry}

variable {call : SpawnCall}

theorem SpawnCall.run_eq_publish (href : ¬ call.Refused registry) :
  call.run env registry
    = let issued := AgentRegistry.issueAll env call.id registry.capabilityRegistry 0
        (call.issued env)
      AgentRegistry.publish env
        { registry with
          activeCount := registry.activeCount + 1
          capabilityRegistry := issued.1 }
        call.id (call.process (call.given ++ issued.2) env.now)
  := by
  have hmap : ∀ (published : Except CoreError Unit × AgentRegistry) (id : AgentId),
      ((published.1.map (fun _ => id)).map (fun _ => ()), published.2) = published := by
    rintro ⟨_ | _, after⟩ id <;> rfl
  cases call with
  | spawn manifest id | spawnWithId manifest id =>
    simp only [run, AgentRegistry.spawn, AgentRegistry.spawnWithId]
    rw [AgentRegistry.spawnInternal_eq_publish env href]
    apply hmap
  | spawnWithTokenHandles id manifest capabilities depth parent =>
    obtain ⟨hdepth, hlimit⟩ := not_or.mp href
    have hres : registry.reserveAgentSlot
        = .ok { registry with activeCount := registry.activeCount + 1 } := if_neg hlimit
    simp only [run, AgentRegistry.spawnWithTokenHandles]
    rw [if_neg hdepth, hres]
    simp only [issued, given, AgentRegistry.issueAll, List.append_nil]
    rfl

theorem SpawnCall.run_cases (env : SpawnEnv) (registry : AgentRegistry) (call : SpawnCall) :
  (call.Refused registry ∧ ∃ e, call.run env registry = (.error e, registry))
    ∨ (¬ call.Refused registry ∧ ∃ process : AgentProcess, process.state = .starting
      ∧ process.manifest = call.manifest ∧ call.run env registry = AgentRegistry.publish env
        { registry with
          activeCount := registry.activeCount + 1
          capabilityRegistry :=
            (AgentRegistry.issueAll env call.id registry.capabilityRegistry 0
              (call.issued env)).1 }
        call.id process)
  := by
  by_cases href : call.Refused registry
  · left
    refine ⟨href, ?_⟩
    cases call with
    | spawn manifest id | spawnWithId manifest id =>
      simp only [run, AgentRegistry.spawn, AgentRegistry.spawnWithId]
      rw [AgentRegistry.spawnInternal_eq_error env href]
      use registry.limitExceeded
      rfl
    | spawnWithTokenHandles id manifest capabilities depth parent =>
      simp only [run, AgentRegistry.spawnWithTokenHandles]
      by_cases hdepth : depth > maxSpawnDepth
      · exact ⟨_, if_pos hdepth⟩
      · have hlimit := href.resolve_left hdepth
        have hfull : registry.reserveAgentSlot = .error registry.limitExceeded := if_pos hlimit
        rw [if_neg hdepth, hfull]
        exact ⟨_, rfl⟩
  · right
    refine ⟨href, _, process_state _ _ _, ?_, run_eq_publish href⟩
    cases call <;> rfl

theorem AgentRegistry.exists_lookup_issueAll (env : SpawnEnv) (id : AgentId)
    {caps : List Capability} (hne : caps ≠ []) (capabilities : CapabilityRegistry) (i : Nat) :
  ∃ j h entry, (issueAll env id capabilities i caps).1.table.lookup h = some entry
    ∧ entry.token.id = env.tokenId j
  := by
  induction caps generalizing capabilities i with
  | nil => exact (hne rfl).elim
  | cons cap rest ih =>
    cases rest with
    | nil =>
      use i, ⟨capabilities.nextId⟩
      simp [issueAll, CapabilityRegistry.insert, CapabilityToken.issue]
    | cons cap' rest => apply ih (List.cons_ne_nil _ _)

theorem MessageRouter.register_channels_ne (router : MessageRouter) (id : AgentId) :
  (router.register id).1.channels ≠ router.channels
  := by
  intro heq
  have hlook : (router.register id).1.channels.lookup id = some router.nextChannel :=
    AList.lookup_insert _
  rw [heq] at hlook
  apply Nat.lt_irrefl _ (router.fresh id _ hlook)

/-- The tables after a spawn whose identifier is in use. -/
theorem sameTables_publish_iff {capabilities : CapabilityRegistry} {id : AgentId}
    {process : AgentProcess} :
  SameTables registry
      (AgentRegistry.wireChannels
        { registry with
          activeCount := registry.activeCount + 1, capabilityRegistry := capabilities }
        id process).1.dropSlot
    ↔ capabilities.table = registry.capabilityRegistry.table ∧ registry.router = none
  := by
  unfold wireChannels dropSlot
  cases hroute : registry.router with
  | none =>
    constructor
    · intro hsame
      exact ⟨hsame.capabilities, rfl⟩
    · rintro ⟨hcaps, -⟩
      constructor
      case agents => rfl
      case activeCount => simp
      case capabilities => apply hcaps
      case channels => simp [hroute]
  | some router =>
    constructor
    · intro hsame
      have hchan := hsame.channels
      simp only [hroute, Option.map_some, Option.some.injEq] at hchan
      exact (router.register_channels_ne id hchan).elim
    · rintro ⟨-, ⟨⟩⟩

theorem SpawnCall.leavesNoTrace_of_lookup {existing : AgentProcess} (href : ¬ call.Refused registry)
    (hlook : registry.agents.lookup call.id = some existing) :
  call.LeavesNoTrace env registry
    ↔ (AgentRegistry.issueAll env call.id registry.capabilityRegistry 0 (call.issued env)).1.table
        = registry.capabilityRegistry.table
      ∧ registry.router = none
  := by
  obtain ⟨href', -⟩ | ⟨-, process, hstate, -, hrun⟩ := call.run_cases env registry
  · exact (href href').elim
  · simp [LeavesNoTrace, hrun, publish_eq hstate, hlook, sameTables_publish_iff]

theorem SpawnCall.not_leavesNoTrace_of_router (href : ¬ call.Refused registry)
    (hlook : (registry.agents.lookup call.id).isSome = true)
    (hroute : registry.router.isSome = true) :
  ¬ call.LeavesNoTrace env registry
  := by
  obtain ⟨existing, hlook⟩ := Option.isSome_iff_exists.mp hlook
  rw [leavesNoTrace_of_lookup href hlook]
  rintro ⟨-, hnone⟩
  rw [hnone] at hroute
  cases hroute

/-- A call that fails leaves no trace exactly when it is refused at the start, or its identifier is
not in use, or it has no capabilities to issue and no channels to register. -/
theorem leavesNoTrace_iff (hfresh : env.FreshFor registry.capabilityRegistry) (call : SpawnCall) :
  call.LeavesNoTrace env registry
    ↔ call.Refused registry ∨ registry.agents.lookup call.id = none
      ∨ (call.issued env = [] ∧ registry.router = none)
  := by
  by_cases href : call.Refused registry
  · simp only [href, true_or, iff_true]
    intro e _
    obtain ⟨-, e', hrun⟩ | ⟨hnot, -⟩ := call.run_cases env registry
    · rw [hrun]
      exact ⟨rfl, rfl, rfl, rfl⟩
    · exact (hnot href).elim
  · cases hlook : registry.agents.lookup call.id with
    | none =>
      simp only [true_or, or_true, iff_true]
      intro e herror
      obtain ⟨href', -⟩ | ⟨-, process, hstate, -, hrun⟩ := call.run_cases env registry
      · exact (href href').elim
      · simp only [hrun, publish_eq hstate, hlook, reduceCtorEq] at herror
    | some existing =>
      simp only [SpawnCall.leavesNoTrace_of_lookup href hlook, href, reduceCtorEq, false_or]
      apply and_congr_left
      intro _
      constructor
      · intro hsame
        by_contra hne
        obtain ⟨j, h, entry, hentry, hid⟩ :=
          exists_lookup_issueAll env call.id hne registry.capabilityRegistry 0
        rw [hsame] at hentry
        apply hfresh j h entry hentry hid
      · intro hnil
        rw [hnil, issueAll]

end Trace

/-- Surroundings in which the tokens have the identifiers from a number on. -/
def plainSpawnEnv (first : Uuid) : SpawnEnv where
  toLowercase := id
  texts := ⟨fun _ => [], fun _ => []⟩
  tokenId i := first + i
  time _ := 0
  now := 0

/-- The manifest of an agent that may search the web. -/
def searchManifest : AgentManifest where
  name := "searcher"
  model := "model"
  systemPrompt := .inline "Search."
  capabilities := [.simple "web_search"]
  budgetConfig := none

def searcherRegistry : AgentRegistry :=
  (AgentRegistry.spawnWithId (plainSpawnEnv 0)
    { AgentRegistry.newWithLimit 100 with router := some .new } searchManifest ⟨0⟩).2

/-- The same agent in a registry that has reached its limit. -/
def fullRegistry : AgentRegistry := { searcherRegistry with maxAgents := 1 }

/-- A second agent is refused. -/
theorem leavesNoTrace_newcomer :
  (plainSpawnEnv 1).FreshFor fullRegistry.capabilityRegistry
    ∧ ((SpawnCall.spawnWithId searchManifest ⟨1⟩).run (plainSpawnEnv 1) fullRegistry).1
      = .error fullRegistry.limitExceeded
    ∧ (SpawnCall.spawnWithId searchManifest ⟨1⟩).LeavesNoTrace (plainSpawnEnv 1) fullRegistry
  := by
  have hfresh : (plainSpawnEnv 1).FreshFor fullRegistry.capabilityRegistry := by
    intro i h entry hentry
    have htable : fullRegistry.capabilityRegistry.table
        = AList.insert ⟨0⟩ ⟨⟨0⟩, .issue 0 0 ⟨0⟩ .webSearch {}⟩ ∅ := rfl
    rw [htable] at hentry
    obtain ⟨-, rfl⟩ | ⟨-, hnone⟩ := Table.lookup_insert_eq_some hentry
    · apply Nat.ne_of_lt
      apply Nat.lt_add_right i Nat.one_pos
    · simp at hnone
  refine ⟨hfresh, rfl, ?_⟩
  rw [leavesNoTrace_iff hfresh]
  left
  decide

/-- Spawning an agent with the identifier of another one fails, and replaces the channels
of that agent. -/
theorem not_leavesNoTrace_duplicate :
  ¬ (SpawnCall.spawnWithId searchManifest ⟨0⟩).LeavesNoTrace (plainSpawnEnv 1) searcherRegistry
    ∧ ¬ (SpawnCall.spawnWithTokenHandles ⟨0⟩ searchManifest [] 1 none).LeavesNoTrace
      (plainSpawnEnv 1) searcherRegistry
  := by
  constructor
  · apply SpawnCall.not_leavesNoTrace_of_router (by decide) rfl rfl
  · apply SpawnCall.not_leavesNoTrace_of_router (by decide) rfl rfl
