import AaOS.Runtime.Declaration
import AaOS.Runtime.Process

/-!
# Spawning and stopping agents

The operations of `aaos-runtime/src/registry.rs` that put an agent into the registry and remove it,
when each runs alone.  The last step of a spawn fails when the identifier is in use.
-/

open AgentProcess

/-- What an operation takes from its surroundings. -/
structure SpawnEnv where
  toLowercase : Text → Text
  texts : MessageTexts
  tokenId : Nat → Uuid
  time : Nat → DateTime
  now : UInt64

def maxSpawnDepth : UInt32 := 5

namespace AgentRegistry

variable (env : SpawnEnv) (registry : AgentRegistry)

/-! ### Steps of a spawn -/

def limitExceeded : CoreError :=
  .invalidManifest ("agent limit exceeded: max "
    ++ Nat.toDigits 10 registry.maxAgents.toNat ++ " agents")

def reserveAgentSlot : Except CoreError AgentRegistry :=
  if registry.activeCount ≥ registry.maxAgents then .error registry.limitExceeded
  else .ok { registry with activeCount := registry.activeCount + 1 }

def dropSlot : AgentRegistry := { registry with activeCount := registry.activeCount - 1 }

def grants (id : AgentId) (manifest : AgentManifest) : List Capability :=
  manifest.capabilities.filterMap (parseCapabilityDeclaration env.toLowercase)
    ++ if manifest.lifecycle = .persistent then [.messageSend [env.texts.agentId id]] else []

def issueAll (id : AgentId) (capabilities : CapabilityRegistry) :
    Nat → List Capability → CapabilityRegistry × List CapabilityHandle
  | _, [] => (capabilities, [])
  | i, capability :: rest =>
    let inserted := capabilities.insert id
      (.issue (env.tokenId i) (env.time i) id capability {})
    let others := issueAll id inserted.1 (i + 1) rest
    (others.1, inserted.2 :: others.2)

def issueCapabilities (id : AgentId) (manifest : AgentManifest) :
    AgentRegistry × List CapabilityHandle :=
  let issued := issueAll env id registry.capabilityRegistry 0 (grants env id manifest)
  ({ registry with capabilityRegistry := issued.1 }, issued.2)

def wireChannels (id : AgentId) (process : AgentProcess) : AgentRegistry × AgentProcess :=
  match registry.router with
  | none => (registry, process)
  | some router =>
    let registered := router.register id
    ({ registry with router := some registered.1 },
      { process with messageRx := some registered.2 })

def alreadyExists (id : AgentId) : CoreError :=
  .invalidManifest ("agent with id " ++ env.texts.agentId id ++ " already exists")

/-- Put a process into the table, unless the identifier is in use. -/
def insertAtomic (id : AgentId) (process : AgentProcess) : Except CoreError AgentRegistry :=
  match registry.agents.lookup id with
  | some _ => .error (alreadyExists env id)
  | none => .ok { registry with agents := registry.agents.insert id process }

variable {process : AgentProcess}

theorem insertAtomic_eq_ok {env : SpawnEnv} {registry published : AgentRegistry} {id : AgentId} :
  registry.insertAtomic env id process = .ok published
    ↔ registry.agents.lookup id = none
      ∧ published = { registry with agents := registry.agents.insert id process }
  := by
  unfold insertAtomic
  cases registry.agents.lookup id <;> simp [eq_comm]

theorem insertAtomic_eq_error {env : SpawnEnv} {registry : AgentRegistry} {id : AgentId}
    {e : CoreError} :
  registry.insertAtomic env id process = .error e
    ↔ registry.agents.lookup id ≠ none ∧ e = alreadyExists env id
  := by
  unfold insertAtomic
  cases registry.agents.lookup id <;> simp [eq_comm]

def publish (id : AgentId) (process : AgentProcess) : Except CoreError Unit × AgentRegistry :=
  match process.transitionTo .running with
  | .error e => (.error e, registry.dropSlot)
  | .ok process =>
    let wired := registry.wireChannels id process
    match wired.1.insertAtomic env id wired.2 with
    | .error e => (.error e, wired.1.dropSlot)
    | .ok published => (.ok (), published)

/-! ### Spawning -/

def spawnInternal (manifest : AgentManifest) (id : AgentId) (persistentIdentity : Bool) :
    Except CoreError AgentId × AgentRegistry :=
  match registry.reserveAgentSlot with
  | .error e => (.error e, registry)
  | .ok reserved =>
    let issued := reserved.issueCapabilities env id manifest
    let process := { AgentProcess.new manifest issued.2 env.now with persistentIdentity }
    let (result, after) := issued.1.publish env id process
    (result.map (fun _ => id), after)

/-- Spawn an agent with an identifier that was drawn for it. -/
def spawn (manifest : AgentManifest) (id : AgentId) : Except CoreError AgentId × AgentRegistry :=
  registry.spawnInternal env manifest id false

/-- Spawn an agent with an identifier that it keeps. -/
def spawnWithId (manifest : AgentManifest) (id : AgentId) :
    Except CoreError AgentId × AgentRegistry :=
  registry.spawnInternal env manifest id true

/-- Spawn a child with the handles that its parent has delegated to it. -/
def spawnWithTokenHandles (id : AgentId) (manifest : AgentManifest)
    (capabilities : List CapabilityHandle) (depth : UInt32) (parent : Option AgentId) :
    Except CoreError Unit × AgentRegistry :=
  if depth > maxSpawnDepth then
    (.error (.invalidManifest ("spawn depth exceeded: max depth is "
      ++ Nat.toDigits 10 maxSpawnDepth.toNat)), registry)
  else
    match registry.reserveAgentSlot with
    | .error e => (.error e, registry)
    | .ok reserved =>
      reserved.publish env id
        { AgentProcess.new manifest capabilities env.now with depth, parentAgent := parent }

/-! ### Stopping -/

def removeAgent (clock : CapabilityHandle → DateTime) (id : AgentId) : AgentRegistry :=
  match registry.agents.lookup id with
  | none => registry
  | some _ =>
    let revoked := registry.capabilityRegistry.revokeAllForAgent clock id
    { registry with
      agents := registry.agents.erase id
      capabilityRegistry := revoked.1.removeAgent id
      activeCount := registry.activeCount - 1 }

def stopProcess (process : AgentProcess) : Except CoreError AgentProcess :=
  if process.state = .stopped then .ok process
  else (process.transitionTo .stopping).bind (·.transitionTo .stopped)

theorem stopProcess_eq_ok {stopped : AgentProcess} (hstop : stopProcess process = .ok stopped) :
  stopped = { process with state := .stopped }
  := by
  unfold stopProcess at hstop
  split_ifs at hstop with hstopped
  · cases hstop
    rw [← hstopped]
  · cases hstopp : process.transitionTo .stopping with
    | error e =>
      rw [hstopp] at hstop
      cases hstop
    | ok stopping =>
      rw [hstopp] at hstop
      obtain ⟨-, rfl⟩ := transitionTo_eq_ok.mp hstopp
      obtain ⟨-, rfl⟩ := transitionTo_eq_ok.mp hstop
      rfl

def stopSync (clock : CapabilityHandle → DateTime) (id : AgentId) :
    Except CoreError Unit × AgentRegistry :=
  match registry.agents.lookup id with
  | none => (.error (.agentNotFound id), registry)
  | some process =>
    match stopProcess process with
    | .error e => (.error e, registry)
    | .ok _ =>
      let unregistered : AgentRegistry :=
        { registry with router := registry.router.map (·.unregister id) }
      (.ok (), unregistered.removeAgent clock id)

/-! ### What a spawn does -/

section Publish

variable {env registry} {id : AgentId} {process : AgentProcess}

@[simp]
theorem wireChannels_agents : (registry.wireChannels id process).1.agents = registry.agents := by
  unfold wireChannels
  cases registry.router <;> rfl

@[simp]
theorem wireChannels_activeCount :
  (registry.wireChannels id process).1.activeCount = registry.activeCount
  := by
  unfold wireChannels
  cases registry.router <;> rfl

@[simp]
theorem wireChannels_maxAgents :
  (registry.wireChannels id process).1.maxAgents = registry.maxAgents
  := by
  unfold wireChannels
  cases registry.router <;> rfl

@[simp]
theorem wireChannels_capabilityRegistry :
  (registry.wireChannels id process).1.capabilityRegistry = registry.capabilityRegistry
  := by
  unfold wireChannels
  cases registry.router <;> rfl

@[simp]
theorem wireChannels_manifest :
  (registry.wireChannels id process).2.manifest = process.manifest
  := by
  unfold wireChannels
  cases registry.router <;> rfl

@[simp]
theorem wireChannels_state :
  (registry.wireChannels id process).2.state = process.state
  := by
  unfold wireChannels
  cases registry.router <;> rfl

@[simp]
theorem wireChannels_capabilities :
  (registry.wireChannels id process).2.capabilities = process.capabilities
  := by
  unfold wireChannels
  cases registry.router <;> rfl

@[simp]
theorem wireChannels_depth :
  (registry.wireChannels id process).2.depth = process.depth
  := by
  unfold wireChannels
  cases registry.router <;> rfl

theorem publish_eq (hstate : process.state = .starting) :
  registry.publish env id process
    = let wired := registry.wireChannels id { process with state := .running }
      match registry.agents.lookup id with
      | some _ => (.error (alreadyExists env id), wired.1.dropSlot)
      | none => (.ok (), { wired.1 with agents := wired.1.agents.insert id wired.2 })
  := by
  have hstart : process.transitionTo .running = .ok { process with state := .running } := by
    simp [transitionTo, hstate, AgentState.canTransitionTo]
  simp only [publish, hstart, insertAtomic, wireChannels_agents]
  cases registry.agents.lookup id <;> rfl

end Publish

theorem spawnInternal_eq_error (env : SpawnEnv) {registry : AgentRegistry}
    (hlimit : registry.maxAgents ≤ registry.activeCount) (manifest : AgentManifest) (id : AgentId)
    (persistentIdentity : Bool) :
  registry.spawnInternal env manifest id persistentIdentity
    = (.error registry.limitExceeded, registry)
  := by
  have hfull : registry.reserveAgentSlot = .error registry.limitExceeded := if_pos hlimit
  simp only [spawnInternal, hfull]

theorem spawnInternal_eq_publish (env : SpawnEnv) {registry : AgentRegistry}
    (hlimit : ¬ registry.maxAgents ≤ registry.activeCount) (manifest : AgentManifest)
    (id : AgentId) (persistentIdentity : Bool) :
  registry.spawnInternal env manifest id persistentIdentity
    = let issued := issueAll env id registry.capabilityRegistry 0 (grants env id manifest)
      let published := publish env
        { registry with
          activeCount := registry.activeCount + 1
          capabilityRegistry := issued.1 }
        id { new manifest issued.2 env.now with persistentIdentity }
      (published.1.map (fun _ => id), published.2)
  := by
  have hres : registry.reserveAgentSlot
      = .ok { registry with activeCount := registry.activeCount + 1 } := if_neg hlimit
  simp only [spawnInternal, hres]
  rfl

end AgentRegistry
