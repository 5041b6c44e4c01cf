import AaOS.Lib.Pool
import AaOS.Registry.Concurrent
import AaOS.Runtime.FailedSpawn

/-!
# Interleaved spawns and stops

The registry of `aaos-runtime/src/registry.rs` is shared by any number of threads.  A spawn
reserves a slot, issues the capabilities one after the other, registers the channels, publishes the
process and commits the slot.  A stop marks the process, removes the channels and the process,
revokes and removes the capabilities in two loops, and gives the slot back.
-/

open AgentRegistry SpawnCall

namespace Lifecycle

open Interleaving (CallStep Revocation)

/-- The registry, and the revocations that were requested by themselves. -/
structure State where
  registry : AgentRegistry
  explicit : List Revocation

/-- An operation with what it still has to do. -/
inductive Operation where
  | spawn (call : SpawnCall)
  | reserveSlot
  | stopSync (id : AgentId)
  | revoke (revocation : Revocation)
  | reserving (call : Option SpawnCall) (current : UInt64)
  | issuing (call : SpawnCall) (rest : List Capability) (handles : List CapabilityHandle)
  | storing (call : SpawnCall) (rest : List Capability) (handles : List CapabilityHandle)
      (token : CapabilityToken) (handle : CapabilityHandle)
  | registering (call : SpawnCall) (handles : List CapabilityHandle)
  | inserting (id : AgentId) (process : AgentProcess)
  | committing (id : AgentId)
  | holding
  | releasing
  | unregistering (id : AgentId)
  | removing (id : AgentId)
  | clearing (id : AgentId) (loop : Interleaving.Call)
  | forgetting (id : AgentId) (loop : Interleaving.Call)
  | decrementing (id : AgentId)
  | revoking (loop : Interleaving.Call)

namespace Operation

def isRequest : Operation → Bool
  | spawn _ | reserveSlot | stopSync _ | revoke _ => true
  | _ => false

/-- What follows the reservation of a slot: the spawn it is for, or nothing until the slot
is dropped. -/
def reserved (env : SpawnEnv) : Option SpawnCall → Operation
  | none => holding
  | some call => issuing call (call.issued env) call.given

end Operation

namespace State

def withRegistry (s : State) (registry : AgentRegistry) : State := { s with registry }

def withCapabilities (s : State) (capabilities : CapabilityRegistry) : State :=
  s.withRegistry { s.registry with capabilityRegistry := capabilities }

def withAgents (s : State) (agents : Table AgentId AgentProcess) : State :=
  s.withRegistry { s.registry with agents }

end State

/-- One step of an operation. -/
inductive Move (env : SpawnEnv) (s : State) : Operation → State → Option Operation → Prop
  | refuseDepth {call : SpawnCall} (hdepth : maxSpawnDepth < call.depth) :
      Move env s (.spawn call) s none
  | load {call : SpawnCall} (hdepth : ¬ maxSpawnDepth < call.depth) :
      Move env s (.spawn call) s (some (.reserving (some call) s.registry.activeCount))
  | loadForSlot :
      Move env s .reserveSlot s (some (.reserving none s.registry.activeCount))
  | refuse {call current} (hlimit : s.registry.maxAgents ≤ current) :
      Move env s (.reserving call current) s none
  | exchangeFails {call current} (hlimit : ¬ s.registry.maxAgents ≤ current) :
      Move env s (.reserving call current) s
        (some (.reserving call s.registry.activeCount))
  | exchange {call} (hlimit : ¬ s.registry.maxAgents ≤ s.registry.activeCount) :
      Move env s (.reserving call s.registry.activeCount)
        (s.withRegistry { s.registry with activeCount := s.registry.activeCount + 1 })
        (some (.reserved env call))
  | dropSlot : Move env s .holding (s.withRegistry s.registry.dropSlot) none
  | fetchAdd {call : SpawnCall} {capability rest handles token h capabilities e} (id : Uuid)
      (time : DateTime) (htoken : token = .issue id time call.id capability {})
      (hstep : CallStep s.registry.capabilityRegistry (.insert call.id token) e capabilities
        (some (.storing call.id token h))) :
      Move env s (.issuing call (capability :: rest) handles) (s.withCapabilities capabilities)
        (some (.storing call rest handles token h))
  | store {call : SpawnCall} {rest handles token h capabilities e}
      (hstep : CallStep s.registry.capabilityRegistry (.storing call.id token h) e capabilities
        none) :
      Move env s (.storing call rest handles token h) (s.withCapabilities capabilities)
        (some (.issuing call rest (handles ++ [h])))
  | endIssuing (call : SpawnCall) (handles : List CapabilityHandle) :
      Move env s (.issuing call [] handles) s (some (.registering call handles))
  | startFails {call : SpawnCall} {handles e} (now : UInt64)
      (hstart : (call.process handles now).transitionTo .running = .error e) :
      Move env s (.registering call handles) s (some .releasing)
  | register {call : SpawnCall} {handles process} (now : UInt64)
      (hstart : (call.process handles now).transitionTo .running = .ok process) :
      Move env s (.registering call handles)
        (s.withRegistry (s.registry.wireChannels call.id process).1)
        (some (.inserting call.id (s.registry.wireChannels call.id process).2))
  | insertFails {id process e} (hinsert : s.registry.insertAtomic env id process = .error e) :
      Move env s (.inserting id process) s (some .releasing)
  | insert {id process registry} (hinsert : s.registry.insertAtomic env id process = .ok registry) :
      Move env s (.inserting id process) (s.withRegistry registry) (some (.committing id))
  | commit (id : AgentId) : Move env s (.committing id) s none
  | release : Move env s .releasing (s.withRegistry s.registry.dropSlot) none
  | stopUnknown {id} (hlookup : s.registry.agents.lookup id = none) :
      Move env s (.stopSync id) s none
  | stopFails {id process e} (hlookup : s.registry.agents.lookup id = some process)
      (hstop : AgentRegistry.stopProcess process = .error e) :
      Move env s (.stopSync id) s none
  | stop {id process stopped} (hlookup : s.registry.agents.lookup id = some process)
      (hstop : AgentRegistry.stopProcess process = .ok stopped) :
      Move env s (.stopSync id) (s.withAgents (s.registry.agents.insert id stopped))
        (some (.unregistering id))
  | unregister (id : AgentId) :
      Move env s (.unregistering id)
        (s.withRegistry { s.registry with router := s.registry.router.map (·.unregister id) })
        (some (.removing id))
  | removeUnknown {id} (hlookup : s.registry.agents.lookup id = none) :
      Move env s (.removing id) s none
  | remove {id process} (hlookup : s.registry.agents.lookup id = some process) :
      Move env s (.removing id) (s.withAgents (s.registry.agents.erase id))
        (some (.clearing id (.revoke (.revokeAllForAgent id))))
  | clear {id loop loop' capabilities e}
      (hstep : CallStep s.registry.capabilityRegistry loop e capabilities (some loop')) :
      Move env s (.clearing id loop) (s.withCapabilities capabilities)
        (some (.clearing id loop'))
  | endClearing {id loop capabilities e}
      (hstep : CallStep s.registry.capabilityRegistry loop e capabilities none) :
      Move env s (.clearing id loop) (s.withCapabilities capabilities)
        (some (.forgetting id (.removeAgent id)))
  | forget {id loop loop' capabilities e}
      (hstep : CallStep s.registry.capabilityRegistry loop e capabilities (some loop')) :
      Move env s (.forgetting id loop) (s.withCapabilities capabilities)
        (some (.forgetting id loop'))
  | endForgetting {id loop capabilities e}
      (hstep : CallStep s.registry.capabilityRegistry loop e capabilities none) :
      Move env s (.forgetting id loop) (s.withCapabilities capabilities)
        (some (.decrementing id))
  | decrement (id : AgentId) :
      Move env s (.decrementing id)
        (s.withRegistry { s.registry with activeCount := s.registry.activeCount - 1 }) none
  | request (revocation : Revocation) :
      Move env s (.revoke revocation) { s with explicit := revocation :: s.explicit }
        (some (.revoking (.revoke revocation)))
  | revoke {loop loop' capabilities e}
      (hstep : CallStep s.registry.capabilityRegistry loop e capabilities (some loop')) :
      Move env s (.revoking loop) (s.withCapabilities capabilities) (some (.revoking loop'))
  | endRevoking {loop capabilities e}
      (hstep : CallStep s.registry.capabilityRegistry loop e capabilities none) :
      Move env s (.revoking loop) (s.withCapabilities capabilities) none

/-- All interleavings of operations. -/
def interleaved (env : SpawnEnv) : PoolSystem State Operation where
  Start _ _ op := op.isRequest = true
  Move s _ op s' op' := Move env s op s' op'

/-- A registry without agents, and no operation in progress. -/
def initial (maxAgents : UInt64) (router : Option MessageRouter) : Pool State Operation where
  shared := { registry := { AgentRegistry.newWithLimit maxAgents with router }, explicit := [] }
  running := 0

/-! ### A spawn alone -/

section Alone

open Relation.ReflTransGen

variable {env : SpawnEnv} {call : SpawnCall}

theorem reaches_registering (draws : SpawnEnv) (caps : List Capability) (i : Nat)
    (handles : List CapabilityHandle) (s : State) (m : Multiset Operation) :
  let issued := issueAll draws call.id s.registry.capabilityRegistry i caps
  (interleaved env).Reaches ⟨s, .issuing call caps handles ::ₘ m⟩
    ⟨s.withCapabilities issued.1, .registering call (handles ++ issued.2) ::ₘ m⟩
  := by
  induction caps generalizing i handles s with
  | nil =>
    simp only [issueAll, List.append_nil]
    apply single (.goesOn (.endIssuing call handles))
  | cons capability rest ih =>
    have hrest := ih (i + 1) (handles ++ [⟨s.registry.capabilityRegistry.nextId⟩])
      (s.withCapabilities (s.registry.capabilityRegistry.insert call.id
        (.issue (draws.tokenId i) (draws.time i) call.id capability {})).1)
    simp only [List.append_assoc] at hrest
    apply head (.goesOn (.fetchAdd (draws.tokenId i) (draws.time i) rfl (.fetchAdd call.id _)))
    apply head (.goesOn (.store (.store call.id _ _)))
    apply hrest

variable (env) in
theorem reaches_inserting (draws : SpawnEnv) {s : State} (href : ¬ call.Refused s.registry)
    (m : Multiset Operation) :
  let issued := issueAll draws call.id s.registry.capabilityRegistry 0
    (call.issued env)
  let wired := wireChannels
    { s.registry with
      activeCount := s.registry.activeCount + 1
      capabilityRegistry := issued.1 }
    call.id { call.process (call.given ++ issued.2) draws.now with state := .running }
  (interleaved env).Reaches ⟨s, .spawn call ::ₘ m⟩
    ⟨s.withRegistry wired.1, .inserting call.id wired.2 ::ₘ m⟩
  := by
  rw [refused_iff] at href
  obtain ⟨hdepth, hlimit⟩ := not_or.mp href
  have hstart : ∀ handles, (call.process handles draws.now).transitionTo .running
      = .ok { call.process handles draws.now with state := .running } := by
    intro handles
    rw [AgentProcess.transitionTo_eq_ok, process_state]
    exact ⟨rfl, rfl⟩
  apply head (.goesOn (.load hdepth))
  apply head (.goesOn (.exchange hlimit))
  apply Relation.ReflTransGen.trans (reaches_registering draws (call.issued env) 0 call.given _ m)
  apply single (.goesOn (.register draws.now (hstart _)))

theorem reaches_committing {s : State} (href : ¬ call.Refused s.registry)
    (hlook : s.registry.agents.lookup call.id = none) (m : Multiset Operation) :
  (interleaved env).Reaches ⟨s, .spawn call ::ₘ m⟩
    ⟨s.withRegistry (call.run env s.registry).2, .committing call.id ::ₘ m⟩
  := by
  have hins := reaches_inserting env env href m
  rw [run_eq_publish href]
  dsimp only
  rw [publish_eq (process_state _ _ _)]
  simp only [hlook]
  apply hins.tail
  apply PoolSystem.Step.goesOn
  apply Move.insert
  rw [insertAtomic_eq_ok]
  refine ⟨?_, rfl⟩
  simp only [State.withRegistry, wireChannels_agents]
  apply hlook

theorem reaches_spawn (s : State) (call : SpawnCall) (m : Multiset Operation) :
  (interleaved env).Reaches ⟨s, .spawn call ::ₘ m⟩ ⟨s.withRegistry (call.run env s.registry).2, m⟩
  := by
  obtain ⟨href, e, hrun⟩ | ⟨href, -⟩ := call.run_cases env s.registry
  · rw [hrun]
    by_cases hdepth : maxSpawnDepth < call.depth
    · apply single (.ends (.refuseDepth hdepth))
    · have hlimit := (refused_iff.mp href).resolve_left hdepth
      apply head (.goesOn (.load hdepth))
      apply single (.ends (.refuse hlimit))
  · cases hlook : s.registry.agents.lookup call.id with
    | none =>
      apply (reaches_committing href hlook m).tail (.ends (.commit call.id))
    | some existing =>
      have hins := reaches_inserting env env href m
      rw [run_eq_publish href]
      dsimp only
      rw [publish_eq (process_state _ _ _)]
      simp only [hlook]
      apply hins.trans
      refine head (.goesOn (.insertFails (e := alreadyExists env call.id) ?_)) ?_
      · rw [insertAtomic_eq_error]
        refine ⟨?_, rfl⟩
        simp only [State.withRegistry, wireChannels_agents, hlook]
        apply Option.some_ne_none
      · apply single (.ends .release)

end Alone

end Lifecycle
