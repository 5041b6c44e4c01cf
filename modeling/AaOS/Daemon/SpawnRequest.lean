import AaOS.Runtime.Spawn

/-!
# Requests to spawn an agent

`spawn_from_yaml_with_id` of `agentd/src/server.rs` reads the manifest, adds the catalog of skills
to the system prompt, spawns the agent and launches the loop of a persistent one.  When the request
fails after the spawn, the agent stays.
-/

/-- The answer to a request. -/
inductive JsonRpcResponse where
  | success (id : Json) (result : Json)
  | error (id : Json) (code : Int) (message : Text)

def internalError : Int := -32603

structure AgentLaunchSpec where
  agentId : AgentId
  manifest : AgentManifest
  capabilityHandles : List CapabilityHandle
  budgetConfig : Option BudgetConfig

structure BackendLaunch where
  outcome : Except CoreError Unit
  launched : AgentLaunchSpec → AgentRegistry → AgentRegistry
  lookup_isSome : ∀ spec registry id, ((launched spec registry).agents.lookup id).isSome
    = (registry.agents.lookup id).isSome
  activeCount : ∀ spec registry, (launched spec registry).activeCount = registry.activeCount

/-- The state of the server that a request reads. -/
structure Server where
  registry : AgentRegistry
  skillCatalog : Text
  hasLlmClient : Bool

structure RequestEnv where
  parse : Text → Except Text AgentManifest
  readToString : Text → Except Text Text
  agentId : AgentId
  spawn : SpawnEnv
  backend : BackendLaunch

namespace Server

variable (env : RequestEnv) (server : Server)

def injectSkills (manifest : AgentManifest) : AgentManifest :=
  if server.skillCatalog = [] then manifest
  else
    let original :=
      match manifest.systemPrompt with
      | .inline s => s
      | .file path => (env.readToString path).toOption.getD []
    { manifest with
      systemPrompt := .inline (original ++ "\n\n" ++ server.skillCatalog) }

def finishSpawn (manifest : AgentManifest) (id : Json) (agentId : AgentId)
    (registry : AgentRegistry) : JsonRpcResponse × AgentRegistry :=
  let success := JsonRpcResponse.success id
    (.obj [("agent_id", .str (env.spawn.texts.agentId agentId))])
  if manifest.lifecycle = .persistent then
    if server.hasLlmClient then
      match registry.getTokenHandles agentId with
      | .error e => (.error id internalError (e.text env.spawn.texts), registry)
      | .ok handles =>
        let after := env.backend.launched ⟨agentId, manifest, handles, manifest.budgetConfig⟩
          registry
        match env.backend.outcome with
        | .error e =>
          (.error id internalError
            ("failed to launch persistent agent: " ++ e.text env.spawn.texts), after)
        | .ok () => (success, after)
    else
      (.error id internalError "persistent agents require an LLM client", registry)
  else (success, registry)

def spawnFromYamlWithId (yaml : Text) (id : Json) (pinnedId : Option AgentId) :
    JsonRpcResponse × AgentRegistry :=
  match AgentManifest.fromYaml env.parse yaml with
  | .error e => (.error id internalError (e.text env.spawn.texts), server.registry)
  | .ok manifest =>
    let manifest := server.injectSkills env manifest
    let spawned :=
      match pinnedId with
      | some pin => server.registry.spawnWithId env.spawn manifest pin
      | none => server.registry.spawn env.spawn manifest env.agentId
    match spawned with
    | (.error e, after) => (.error id internalError (e.text env.spawn.texts), after)
    | (.ok agentId, after) => server.finishSpawn env manifest id agentId after

end Server

structure SameAgents (before after : AgentRegistry) : Prop where
  lookup_isSome : ∀ id, (after.agents.lookup id).isSome = (before.agents.lookup id).isSome
  activeCount : after.activeCount = before.activeCount

def Server.SpawnsNothingOnError (env : RequestEnv) (server : Server) (yaml : Text) (id : Json)
    (pinnedId : Option AgentId) : Prop :=
  ∀ code message, (server.spawnFromYamlWithId env yaml id pinnedId).1 = .error id code message →
    SameAgents server.registry (server.spawnFromYamlWithId env yaml id pinnedId).2

/-! ### Requests that fail -/

theorem AgentRegistry.spawnInternal_outcome (env : SpawnEnv) (registry : AgentRegistry)
    (manifest : AgentManifest) (id : AgentId) (persistentIdentity : Bool) :
  ((registry.maxAgents ≤ registry.activeCount ∨ registry.agents.lookup id ≠ none)
      ∧ ∃ e after, registry.spawnInternal env manifest id persistentIdentity = (.error e, after)
        ∧ SameAgents registry after)
    ∨ (¬ registry.maxAgents ≤ registry.activeCount ∧ registry.agents.lookup id = none
      ∧ ∃ after, registry.spawnInternal env manifest id persistentIdentity = (.ok id, after)
        ∧ (after.agents.lookup id).isSome = true)
  := by
  by_cases hfull : registry.maxAgents ≤ registry.activeCount
  · left
    have hrun := spawnInternal_eq_error env hfull manifest id persistentIdentity
    exact ⟨.inl hfull, _, registry, hrun, ⟨fun _ => rfl, rfl⟩⟩
  · have hrun := spawnInternal_eq_publish env hfull manifest id persistentIdentity
    dsimp only at hrun
    rw [publish_eq rfl] at hrun
    cases hlook : registry.agents.lookup id with
    | some existing =>
      left
      simp only [hlook] at hrun
      refine ⟨.inr (Option.some_ne_none _), _, _, hrun, ?_, ?_⟩
      all_goals simp [dropSlot]
    | none =>
      right
      simp only [hlook] at hrun
      refine ⟨hfull, rfl, _, hrun, ?_⟩
      simp

namespace Server

variable {env : RequestEnv} {server : Server}

@[simp]
theorem injectSkills_lifecycle (manifest : AgentManifest) :
  (server.injectSkills env manifest).lifecycle = manifest.lifecycle
  := by
  unfold injectSkills
  split_ifs <;> rfl

/-- The agent that was spawned stays when the request fails afterwards. -/
theorem finishSpawn_spec (manifest : AgentManifest) (id : Json) {agentId : AgentId}
    {registry : AgentRegistry} (hagent : (registry.agents.lookup agentId).isSome = true) :
  ((server.finishSpawn env manifest id agentId registry).2.agents.lookup agentId).isSome = true
    ∧ ((∃ code message, (server.finishSpawn env manifest id agentId registry).1
        = .error id code message)
      ↔ manifest.lifecycle = .persistent
        ∧ ¬ (server.hasLlmClient = true ∧ env.backend.outcome = .ok ()))
  := by
  obtain ⟨process, hproc⟩ := Option.isSome_iff_exists.mp hagent
  have hhand : registry.getTokenHandles agentId = .ok process.capabilities := by
    simp only [AgentRegistry.getTokenHandles, hproc]
  unfold finishSpawn
  by_cases hper : manifest.lifecycle = .persistent
  · simp only [hper, if_true, hhand]
    cases server.hasLlmClient with
    | false => simp [hagent]
    | true => cases env.backend.outcome <;> simp [env.backend.lookup_isSome, hagent]
  · simp [hper, hagent]

theorem spawnFromYamlWithId_eq {yaml : Text} {manifest : AgentManifest}
    (hman : AgentManifest.fromYaml env.parse yaml = .ok manifest) (id : Json)
    (pinnedId : Option AgentId) :
  server.spawnFromYamlWithId env yaml id pinnedId
    = match server.registry.spawnInternal env.spawn (server.injectSkills env manifest)
        (pinnedId.getD env.agentId) pinnedId.isSome with
      | (.error e, after) => (.error id internalError (e.text env.spawn.texts), after)
      | (.ok agentId, after) =>
        server.finishSpawn env (server.injectSkills env manifest) id agentId after
  := by
  simp only [spawnFromYamlWithId, hman]
  cases pinnedId <;> rfl

/-- A request that fails spawns nothing exactly when a persistent agent that is admitted is
launched. -/
theorem spawnsNothingOnError_iff (yaml : Text) (id : Json) (pinnedId : Option AgentId) :
  server.SpawnsNothingOnError env yaml id pinnedId
    ↔ ∀ manifest, AgentManifest.fromYaml env.parse yaml = .ok manifest →
      manifest.lifecycle = .persistent →
      ¬ server.registry.maxAgents ≤ server.registry.activeCount →
      server.registry.agents.lookup (pinnedId.getD env.agentId) = none →
      server.hasLlmClient = true ∧ env.backend.outcome = .ok ()
  := by
  unfold SpawnsNothingOnError
  cases hman : AgentManifest.fromYaml env.parse yaml with
  | error e =>
    simp only [reduceCtorEq, false_implies, implies_true, iff_true]
    intro _ _ _
    simp only [spawnFromYamlWithId, hman]
    exact ⟨fun _ => rfl, rfl⟩
  | ok manifest =>
    simp only [spawnFromYamlWithId_eq hman, Except.ok.injEq, forall_eq']
    obtain ⟨hnot, e, after, hrun, hsame⟩ | ⟨hfull, hnew, after, hrun, hagent⟩ :=
      server.registry.spawnInternal_outcome env.spawn (server.injectSkills env manifest)
        (pinnedId.getD env.agentId) pinnedId.isSome
    · simp only [hrun]
      constructor
      · intro _ _ hfull hnew
        exact (hnot.elim hfull (fun hne => hne hnew)).elim
      · intro _ _ _ _
        apply hsame
    · obtain ⟨hstays, herror⟩ := finishSpawn_spec (server.injectSkills env manifest) id hagent
      rw [injectSkills_lifecycle] at herror
      simp only [hrun, hfull, hnew, not_false_eq_true, true_implies]
      constructor
      · intro hsame hper
        by_contra hfails
        obtain ⟨code, message, hcode⟩ := herror.mpr ⟨hper, hfails⟩
        have hlook := (hsame code message hcode).lookup_isSome (pinnedId.getD env.agentId)
        rw [hstays, hnew] at hlook
        cases hlook
      · intro hlaun code message hcode
        obtain ⟨hper, hfails⟩ := herror.mp ⟨code, message, hcode⟩
        exact (hfails (hlaun hper)).elim

end Server

def keeperManifest : AgentManifest where
  name := "keeper"
  model := "model"
  systemPrompt := .inline "Wait."
  capabilities := []
  lifecycle := .persistent
  budgetConfig := none

def emptyServer (hasLlmClient : Bool) : Server where
  registry := .newWithLimit 100
  skillCatalog := []
  hasLlmClient := hasLlmClient

/-- The request for the persistent agent, with a launch that fails. -/
def keeperRequest : RequestEnv where
  parse := keeperManifest.readOnly
  readToString _ := .error []
  agentId := ⟨0⟩
  spawn := ⟨id, ⟨fun _ => [], fun _ => []⟩, id, fun _ => 0, 0⟩
  backend :=
    { outcome := .error (.ipc "message_rx already taken")
      launched := fun _ registry => registry
      lookup_isSome := fun _ _ _ => rfl
      activeCount := fun _ _ => rfl }

/-- The persistent agent stays when there is no client for the model, and when the launch fails. -/
theorem not_spawnsNothingOnError_keeper :
  ¬ (emptyServer false).SpawnsNothingOnError keeperRequest keeperManifest.yaml .null none
    ∧ ¬ (emptyServer true).SpawnsNothingOnError keeperRequest keeperManifest.yaml .null none
  := by
  constructor
  · intro hnot
    have hcount := (hnot internalError _ rfl).activeCount
    revert hcount
    decide
  · intro hnot
    have hcount := (hnot internalError _ rfl).activeCount
    revert hcount
    decide
