import AaOS.Core.Manifest
import AaOS.Registry.Registry

/-!
# Agent processes

A process of `aaos-runtime/src/process.rs`, the channels that `aaos-ipc/src/router.rs` registers
for it, and the table of all agents of `aaos-runtime/src/registry.rs`.  A channel is known by a
number that no earlier channel has.
-/

inductive AgentState where
  | starting
  | running
  | paused
  | stopping
  | stopped
deriving DecidableEq, Repr

namespace AgentState

def canTransitionTo : AgentState → AgentState → Bool
  | starting, running | starting, stopped => true
  | running, paused | running, stopping => true
  | paused, running | paused, stopping => true
  | stopping, stopped => true
  | _, _ => false

/-- The name of a state in messages. -/
def text : AgentState → Text
  | starting => "starting"
  | running => "running"
  | paused => "paused"
  | stopping => "stopping"
  | stopped => "stopped"

end AgentState

abbrev ChannelId : Type := Nat

/-- The channels of the agents; the channels that are created next have larger numbers. -/
structure MessageRouter where
  channels : Table AgentId ChannelId
  nextChannel : ChannelId
  fresh : ∀ id channel, channels.lookup id = some channel → channel < nextChannel

namespace MessageRouter

/-- A router without registrations. -/
def new : MessageRouter where
  channels := ∅
  nextChannel := 0
  fresh := by simp

def register (router : MessageRouter) (agentId : AgentId) : MessageRouter × ChannelId :=
  ({  channels := AList.insert agentId router.nextChannel router.channels
      nextChannel := router.nextChannel + 1
      fresh := by
        intro id channel hlookup
        obtain ⟨-, rfl⟩ | ⟨-, hlookup⟩ := Table.lookup_insert_eq_some hlookup
        · apply Nat.lt_succ_self
        · apply Nat.lt_succ_of_lt (router.fresh id channel hlookup) },
    router.nextChannel)

def unregister (router : MessageRouter) (agentId : AgentId) : MessageRouter where
  channels := AList.erase agentId router.channels
  nextChannel := router.nextChannel
  fresh := by
    intro id channel hlookup
    apply router.fresh id channel (Table.lookup_of_lookup_erase hlookup)

end MessageRouter

/-- An agent of the registry. -/
structure AgentProcess where
  manifest : AgentManifest
  state : AgentState
  capabilities : List CapabilityHandle
  depth : UInt32
  messageRx : Option ChannelId
  budgetTracker : Option BudgetTracker
  persistentIdentity : Bool
  parentAgent : Option AgentId

namespace AgentProcess

/-- A process that starts now. -/
def new (manifest : AgentManifest) (capabilities : List CapabilityHandle) (now : UInt64) :
    AgentProcess where
  manifest := manifest
  state := .starting
  capabilities := capabilities
  depth := 0
  messageRx := none
  budgetTracker := manifest.budgetConfig.map (fun config => BudgetTracker.new config now)
  persistentIdentity := false
  parentAgent := none

def transitionTo (process : AgentProcess) (target : AgentState) : Except CoreError AgentProcess :=
  if process.state.canTransitionTo target then .ok { process with state := target }
  else .error (.invalidStateTransition process.state.text target.text)

theorem transitionTo_eq_ok {process process' : AgentProcess} {target : AgentState} :
  process.transitionTo target = .ok process'
    ↔ process.state.canTransitionTo target = true ∧ process' = { process with state := target }
  := by
  unfold transitionTo
  split_ifs with hvalid
  · simp [hvalid, eq_comm]
  · simp [hvalid]

end AgentProcess

/-- The agents and their capabilities, the number of admitted agents, and the router once it is set.
-/
structure AgentRegistry where
  agents : Table AgentId AgentProcess
  capabilityRegistry : CapabilityRegistry
  activeCount : UInt64
  maxAgents : UInt64
  router : Option MessageRouter

namespace AgentRegistry

def newWithLimit (maxAgents : UInt64) : AgentRegistry where
  agents := ∅
  capabilityRegistry := .new
  activeCount := 0
  maxAgents := maxAgents
  router := none

/-- Count the usage of an agent that has a budget. -/
def trackTokenUsage (registry : AgentRegistry) (now later : UInt64) (id : AgentId)
    (usage : TokenUsage) : Except CoreError Unit × AgentRegistry :=
  match registry.agents.lookup id with
  | none => (.error (.agentNotFound id), registry)
  | some process =>
    match process.budgetTracker with
    | none => (.ok (), registry)
    | some tracker =>
      if 0 < usage.total then
        let (result, tracked) := tracker.track now later usage.total
        (result.mapError .budgetExceeded,
          { registry with
            agents := registry.agents.insert id { process with budgetTracker := tracked } })
      else (.ok (), registry)

def getTokenHandles (registry : AgentRegistry) (id : AgentId) :
    Except CoreError (List CapabilityHandle) :=
  match registry.agents.lookup id with
  | none => .error (.agentNotFound id)
  | some process => .ok process.capabilities

def getManifest (registry : AgentRegistry) (id : AgentId) : Except CoreError AgentManifest :=
  match registry.agents.lookup id with
  | none => .error (.agentNotFound id)
  | some process => .ok process.manifest

def getDepth (registry : AgentRegistry) (id : AgentId) : Except CoreError UInt32 :=
  match registry.agents.lookup id with
  | none => .error (.agentNotFound id)
  | some process => .ok process.depth

theorem getManifest_eq_ok {registry : AgentRegistry} {id : AgentId} {manifest : AgentManifest} :
  registry.getManifest id = .ok manifest
    ↔ ∃ process, registry.agents.lookup id = some process ∧ process.manifest = manifest
  := by
  unfold getManifest
  cases registry.agents.lookup id <;> simp

end AgentRegistry
