import AaOS.Daemon.SpawnRequest
import AaOS.Executor.Loop

/-!
# Requests to spawn an agent and run it once

`handle_agent_spawn_and_run` of `agentd/src/server.rs` refuses the manifest of a persistent agent
when it is given as a text.  A manifest in a file is not checked: a persistent agent is then
launched and executed beside its own loop.
-/

open AgentRegistry Option

/-- Beside what a spawn takes from its surroundings: the reader of identifiers, and the run of an
agent. -/
structure SpawnRunEnv extends RequestEnv where
  parseAgentId : Text → Option AgentId
  run : AgentId → AgentManifest → Text → AgentRegistry → ExecutionResult × AgentRegistry

/-- The outcome of a request: the answer, unless the thread panics, and the agent that was
executed. -/
structure SpawnAndRunOutcome where
  response : Option JsonRpcResponse
  executed : Option (AgentId × AgentManifest)
  registry : AgentRegistry

namespace Server

section Handlers

variable (env : SpawnRunEnv) (server : Server)

/-- The text of a field of the parameters. -/
def textOf (params : Json) (name : Text) : Option Text := (params.get name).bind Json.asStr

def handleAgentSpawn (params id : Json) : JsonRpcResponse × AgentRegistry :=
  match textOf params "manifest" with
  | some yaml => server.spawnFromYamlWithId env.toRequestEnv yaml id none
  | none =>
    match textOf params "manifest_path" with
    | some path =>
      match env.readToString path with
      | .ok content => server.spawnFromYamlWithId env.toRequestEnv content id none
      | .error e => (.error id internalError e, server.registry)
    | none =>
      (.error id internalError "missing 'manifest' or 'manifest_path' parameter",
        server.registry)

def executeAgent (agentId : AgentId) (manifest : AgentManifest) (message : Text) (id : Json)
    (registry : AgentRegistry) : JsonRpcResponse × AgentRegistry :=
  if server.hasLlmClient then
    let ran := env.run agentId manifest message registry
    (.success id
      (.obj [("iterations", jsonNat ran.1.iterations.toNat),
        ("response", .str ran.1.response),
        ("stop_reason", .str ran.1.stopReason.text),
        ("usage", .obj
          [("input_tokens", jsonNat ran.1.usage.inputTokens.toNat),
            ("output_tokens", jsonNat ran.1.usage.outputTokens.toNat)])]),
      ran.2)
  else (.error id internalError "no LLM client configured", registry)

def givenPersistent (params : Json) : Bool :=
  match textOf params "manifest" with
  | none => false
  | some yaml =>
    match AgentManifest.fromYaml env.parse yaml with
    | .error _ => false
    | .ok manifest => manifest.lifecycle = .persistent

/-- The answer with the identifier of the agent in its result. -/
def withAgentId (agentId : Text) : JsonRpcResponse → JsonRpcResponse
  | .success id (.obj fields) =>
    .success id (.obj (("agent_id", .str agentId)
      :: fields.filter (fun field => field.1 ≠ "agent_id")))
  | other => other

/-- Execute the agent that was just spawned.  There is no answer if the agent is not found. -/
def runSpawned (agentIdStr message : Text) (id : Json) (after : AgentRegistry) :
    SpawnAndRunOutcome :=
  match env.parseAgentId agentIdStr with
  | none => ⟨none, none, after⟩
  | some agentId =>
    match after.getManifest agentId with
    | .error _ => ⟨none, none, after⟩
    | .ok manifest =>
      let ran := server.executeAgent env agentId manifest message id after
      ⟨some (withAgentId agentIdStr ran.1), some (agentId, manifest), ran.2⟩

def handleAgentSpawnAndRun (params id : Json) : SpawnAndRunOutcome :=
  let refuse (message : Text) (registry : AgentRegistry) : SpawnAndRunOutcome :=
    ⟨some (.error id internalError message), none, registry⟩
  match textOf params "message" with
  | none => refuse "missing 'message' parameter" server.registry
  | some message =>
    if givenPersistent env params then
      refuse ("agent.spawn_and_run does not support `lifecycle: persistent` — "
        ++ "use agent.spawn followed by agent.run for persistent agents "
        ++ "(otherwise the persistent loop leaks after the one-shot returns)")
        server.registry
    else
      match server.handleAgentSpawn env params .null with
      | (.error _ _ message, after) => refuse message after
      | (.success _ result, after) =>
        match textOf result "agent_id" with
        | none => refuse "spawn failed" after
        | some agentIdStr => server.runSpawned env agentIdStr message id after

end Handlers

/-- The request executes no persistent agent, and if it executes none it answers with an error. -/
structure RunsOneShotsOnly (env : SpawnRunEnv) (server : Server) (params id : Json) : Prop where
  executed : ∀ agentId manifest,
    (server.handleAgentSpawnAndRun env params id).executed = some (agentId, manifest) →
      manifest.lifecycle ≠ .persistent
  answered : (server.handleAgentSpawnAndRun env params id).executed = none →
    ∃ code message,
      (server.handleAgentSpawnAndRun env params id).response = some (.error id code message)

def namedManifest (env : SpawnRunEnv) (params : Json) : Option Text :=
  match textOf params "manifest" with
  | some yaml => some yaml
  | none =>
    (textOf params "manifest_path").bind (fun path => (env.readToString path).toOption)

/-- The agent of a manifest is spawned, and launched if it is persistent. -/
structure Spawns (env : RequestEnv) (server : Server) (yaml : Text) (manifest : AgentManifest) :
    Prop where
  reads : AgentManifest.fromYaml env.parse yaml = .ok manifest
  room : ¬ server.registry.maxAgents ≤ server.registry.activeCount
  fresh : server.registry.agents.lookup env.agentId = none
  launched : manifest.lifecycle = .persistent →
    server.hasLlmClient = true ∧ env.backend.outcome = .ok ()

/-- A launch keeps the manifests of the agents, and the identifier of the agent is read back from
its text. -/
structure Faithful (env : SpawnRunEnv) : Prop where
  getManifest : ∀ spec (registry : AgentRegistry) id,
    (env.backend.launched spec registry).getManifest id = registry.getManifest id
  parseAgentId : env.parseAgentId (env.spawn.texts.agentId env.agentId) = some env.agentId

end Server

/-! ### The agent that was spawned -/

theorem AgentRegistry.getManifest_of_spawnInternal {env : SpawnEnv} {registry after : AgentRegistry}
    {manifest : AgentManifest} {id id' : AgentId} {persistentIdentity : Bool}
    (hrun : registry.spawnInternal env manifest id persistentIdentity = (.ok id', after)) :
  id' = id ∧ after.getManifest id = .ok manifest
  := by
  have hroom : ¬ registry.maxAgents ≤ registry.activeCount := by
    intro hfull
    rw [spawnInternal_eq_error env hfull] at hrun
    cases hrun
  rw [spawnInternal_eq_publish env hroom] at hrun
  dsimp only at hrun
  rw [publish_eq rfl] at hrun
  cases hlook : registry.agents.lookup id with
  | some existing =>
    simp only [hlook] at hrun
    cases hrun
  | none =>
    simp only [hlook] at hrun
    cases hrun
    refine ⟨rfl, getManifest_eq_ok.mpr ⟨_, AList.lookup_insert _, ?_⟩⟩
    rw [wireChannels_manifest]
    rfl

namespace Server

variable {env : SpawnRunEnv} {server : Server}

def spawnedResult (env : RequestEnv) : Json :=
  .obj [("agent_id", .str (env.spawn.texts.agentId env.agentId))]

/-- The end of a request to spawn: it succeeds unless a persistent agent is not launched. -/
theorem finishSpawn_cases (henv : Faithful env) (server : Server) {manifest : AgentManifest}
    (id : Json)
    {registry : AgentRegistry} (hman : registry.getManifest env.agentId = .ok manifest) :
  ((manifest.lifecycle = .persistent →
        server.hasLlmClient = true ∧ env.backend.outcome = .ok ())
      ∧ ∃ after, server.finishSpawn env.toRequestEnv manifest id env.agentId registry
          = (.success id (spawnedResult env.toRequestEnv), after)
        ∧ after.getManifest env.agentId = .ok manifest)
    ∨ (¬ (manifest.lifecycle = .persistent →
        server.hasLlmClient = true ∧ env.backend.outcome = .ok ())
      ∧ ∃ code message after,
        server.finishSpawn env.toRequestEnv manifest id env.agentId registry
          = (.error id code message, after))
  := by
  obtain ⟨process, hproc, -⟩ := getManifest_eq_ok.mp hman
  have hhand : registry.getTokenHandles env.agentId = .ok process.capabilities := by
    simp only [getTokenHandles, hproc]
  unfold finishSpawn
  by_cases hper : manifest.lifecycle = .persistent
  · simp only [hper, if_true, hhand, true_implies]
    cases server.hasLlmClient with
    | false =>
      right
      exact ⟨by simp, _, _, _, rfl⟩
    | true =>
      cases env.backend.outcome with
      | error e =>
        right
        exact ⟨by simp, _, _, _, rfl⟩
      | ok =>
        left
        refine ⟨⟨rfl, rfl⟩, _, rfl, ?_⟩
        rw [henv.getManifest, hman]
  · left
    simp only [hper, if_false, false_implies, true_and]
    exact ⟨registry, rfl, hman⟩

theorem spawnFromYamlWithId_cases (henv : Faithful env) (yaml : Text) (id : Json) :
  (∃ manifest after, server.Spawns env.toRequestEnv yaml manifest
      ∧ server.spawnFromYamlWithId env.toRequestEnv yaml id none
        = (.success id (spawnedResult env.toRequestEnv), after)
      ∧ after.getManifest env.agentId = .ok (server.injectSkills env.toRequestEnv manifest))
    ∨ ((∀ manifest, ¬ server.Spawns env.toRequestEnv yaml manifest)
      ∧ ∃ code message after, server.spawnFromYamlWithId env.toRequestEnv yaml id none
        = (.error id code message, after))
  := by
  cases hman : AgentManifest.fromYaml env.parse yaml with
  | error e =>
    right
    constructor
    · intro manifest hspawn
      have hreads := hspawn.reads
      rw [hman] at hreads
      cases hreads
    · simp only [spawnFromYamlWithId, hman]
      exact ⟨_, _, _, rfl⟩
  | ok manifest =>
    rw [spawnFromYamlWithId_eq hman]
    obtain ⟨hnot, e, after, hrun, -⟩ | ⟨hroom, hfresh, after, hrun, -⟩ :=
      server.registry.spawnInternal_outcome env.spawn
        (server.injectSkills env.toRequestEnv manifest) env.agentId false
    · right
      constructor
      · intro manifest' hspawn
        exact hnot.elim hspawn.room (fun hne => hne hspawn.fresh)
      · simp only [getD_none, isSome_none, hrun]
        exact ⟨_, _, _, rfl⟩
    · simp only [getD_none, isSome_none, hrun]
      have hafter := (getManifest_of_spawnInternal hrun).2
      obtain ⟨hlaun, after', hfin, hman'⟩ | ⟨hnot, code, message, after', hfin⟩ :=
        finishSpawn_cases henv server id hafter
      · left
        rw [injectSkills_lifecycle] at hlaun
        exact ⟨manifest, after', ⟨hman, hroom, hfresh, hlaun⟩, hfin, hman'⟩
      · right
        rw [injectSkills_lifecycle] at hnot
        refine ⟨?_, code, message, after', hfin⟩
        intro manifest' hspawn
        have hreads := hspawn.reads
        rw [hman] at hreads
        cases hreads
        exact hnot hspawn.launched

variable {params : Json}

theorem namedManifest_eq_some_iff {yaml : Text} :
  namedManifest env params = some yaml
    ↔ textOf params "manifest" = some yaml
      ∨ textOf params "manifest" = none
        ∧ ∃ path, textOf params "manifest_path" = some path
          ∧ env.readToString path = .ok yaml
  := by
  have hopt :
      ∀ result : Except Text Text, result.toOption = some yaml ↔ result = .ok yaml := by
    intro result
    cases result <;> simp [Except.toOption]
  unfold namedManifest
  cases textOf params "manifest" with
  | some given => simp only [reduceCtorEq, false_and, or_false]
  | none =>
    simp only [bind_eq_some_iff, hopt, reduceCtorEq, false_or, true_and]

theorem handleAgentSpawn_of_named {yaml : Text} (hnamed : namedManifest env params = some yaml)
    (id : Json) :
  server.handleAgentSpawn env params id
    = server.spawnFromYamlWithId env.toRequestEnv yaml id none
  := by
  unfold handleAgentSpawn
  obtain hgiven | ⟨hgiven, path, hpath, hread⟩ := namedManifest_eq_some_iff.mp hnamed
  · simp only [hgiven]
  · simp only [hgiven, hpath, hread]

theorem handleAgentSpawn_of_not_named (server : Server) (hnamed : namedManifest env params = none)
    (id : Json) :
  ∃ message, server.handleAgentSpawn env params id
    = (.error id internalError message, server.registry)
  := by
  unfold namedManifest at hnamed
  unfold handleAgentSpawn
  cases hgiven : textOf params "manifest" with
  | some given =>
    rw [hgiven] at hnamed
    cases hnamed
  | none =>
    simp only [hgiven] at hnamed
    cases hpath : textOf params "manifest_path" with
    | none => exact ⟨_, rfl⟩
    | some path =>
      rw [hpath] at hnamed
      cases hcon : env.readToString path with
      | error e =>
        use e
        simp only [hcon]
      | ok content =>
        rw [bind_some, hcon] at hnamed
        cases hnamed

/-! ### One-shot runs -/

theorem runsOneShotsOnly_of_refused {id : Json} {code : Int} {message : Text}
    {registry : AgentRegistry}
    (href : server.handleAgentSpawnAndRun env params id
      = ⟨some (.error id code message), none, registry⟩) :
  RunsOneShotsOnly env server params id
  := by
  constructor
  case executed =>
    intro agentId manifest hexec
    rw [href] at hexec
    cases hexec
  case answered =>
    intro _
    rw [href]
    exact ⟨code, message, rfl⟩

theorem givenPersistent_eq_true_iff :
  givenPersistent env params = true
    ↔ ∃ yaml manifest, textOf params "manifest" = some yaml
      ∧ AgentManifest.fromYaml env.parse yaml = .ok manifest ∧ manifest.lifecycle = .persistent
  := by
  unfold givenPersistent
  cases textOf params "manifest" with
  | none => simp only [Bool.false_eq_true, reduceCtorEq, false_and, exists_false]
  | some yaml =>
    cases hread : AgentManifest.fromYaml env.parse yaml with
    | error e => simp [hread]
    | ok manifest => simp [hread]

theorem handleAgentSpawnAndRun_cases (henv : Faithful env) (server : Server) (params id : Json) :
  (∃ yaml manifest, givenPersistent env params = false ∧ textOf params "message" ≠ none
      ∧ namedManifest env params = some yaml ∧ server.Spawns env.toRequestEnv yaml manifest
      ∧ (server.handleAgentSpawnAndRun env params id).executed
        = some (env.agentId, server.injectSkills env.toRequestEnv manifest))
    ∨ ((givenPersistent env params = true ∨ textOf params "message" = none
        ∨ ∀ yaml manifest, namedManifest env params = some yaml →
          ¬ server.Spawns env.toRequestEnv yaml manifest)
      ∧ ∃ message registry, server.handleAgentSpawnAndRun env params id
        = ⟨some (.error id internalError message), none, registry⟩)
  := by
  unfold handleAgentSpawnAndRun
  cases hmsg : textOf params "message" with
  | none =>
    right
    exact ⟨.inr (.inl rfl), _, _, rfl⟩
  | some message =>
  cases hgiven : givenPersistent env params with
  | true =>
    right
    exact ⟨.inl rfl, _, _, rfl⟩
  | false =>
  simp only [Bool.false_eq_true, if_false]
  cases hnamed : namedManifest env params with
  | none =>
    right
    obtain ⟨refusal, hrun⟩ := server.handleAgentSpawn_of_not_named hnamed .null
    simp only [hrun]
    exact ⟨.inr (.inr (by simp)), _, _, rfl⟩
  | some yaml =>
    rw [handleAgentSpawn_of_named hnamed]
    obtain ⟨manifest, after, hspawn, hrun, hman⟩ | ⟨hnot, code, refusal, after, hrun⟩ :=
      server.spawnFromYamlWithId_cases henv yaml .null
    · left
      refine ⟨yaml, manifest, trivial, some_ne_none message, rfl, hspawn, ?_⟩
      have hagent : textOf (spawnedResult env.toRequestEnv) "agent_id"
          = some (env.spawn.texts.agentId env.agentId) := rfl
      simp only [hrun, hagent, runSpawned, henv.parseAgentId, hman]
    · right
      simp only [hrun]
      refine ⟨.inr (.inr ?_), _, _, rfl⟩
      intro yaml' manifest hyaml
      cases hyaml
      apply hnot manifest

/-- Requests execute no persistent agent exactly when there is no message, the manifest is given as
a text, or the agent in the file is not spawned or not persistent. -/
theorem runsOneShotsOnly_iff (henv : Faithful env) (server : Server) (params id : Json) :
  RunsOneShotsOnly env server params id
    ↔ ∀ path yaml manifest, textOf params "message".toList ≠ none →
      textOf params "manifest".toList = none →
      textOf params "manifest_path".toList = some path →
      env.readToString path = .ok yaml →
      server.Spawns env.toRequestEnv yaml manifest →
      manifest.lifecycle ≠ .persistent
  := by
  constructor
  · intro hruns path yaml manifest hmsg hgiven hpath hread hspawn
    have hnamed : namedManifest env params = some yaml :=
      namedManifest_eq_some_iff.mpr (.inr ⟨hgiven, path, hpath, hread⟩)
    obtain ⟨yaml', manifest', -, -, hnamed', hspawn', hexec⟩ | ⟨href, -⟩ :=
      handleAgentSpawnAndRun_cases henv server params id
    · obtain rfl : yaml = yaml' := Option.some.inj (hnamed.symm.trans hnamed')
      obtain rfl : manifest = manifest' := Except.ok.inj (hspawn.reads.symm.trans hspawn'.reads)
      have hlif := hruns.executed _ _ hexec
      rwa [injectSkills_lifecycle] at hlif
    · obtain hper | hnone | hnot := href
      · obtain ⟨given, _, htext, -⟩ := givenPersistent_eq_true_iff.mp hper
        rw [hgiven] at htext
        cases htext
      · exact absurd hnone hmsg
      · exact absurd hspawn (hnot yaml manifest hnamed)
  · intro hfiles
    obtain ⟨yaml, manifest, hgiven, hmsg, hnamed, hspawn, hexec⟩ | ⟨-, _, _, href⟩ :=
      handleAgentSpawnAndRun_cases henv server params id
    · constructor
      case executed =>
        intro agentId executed heq
        rw [hexec] at heq
        cases heq
        rw [injectSkills_lifecycle]
        obtain htext | ⟨htext, path, hpath, hread⟩ := namedManifest_eq_some_iff.mp hnamed
        · intro hper
          have htrue := givenPersistent_eq_true_iff.mpr
            ⟨yaml, manifest, htext, hspawn.reads, hper⟩
          rw [hgiven] at htrue
          cases htrue
        · apply hfiles path yaml manifest hmsg htext hpath hread hspawn
      case answered =>
        intro hnone
        rw [hexec] at hnone
        cases hnone
    · apply runsOneShotsOnly_of_refused href

/-- The surroundings of requests for the persistent agent, with a launch that succeeds. -/
def keeperRun : SpawnRunEnv where
  toRequestEnv :=
    { keeperRequest with
      readToString := fun path =>
        if path = "keeper.yaml" then .ok keeperManifest.yaml else .error "no such file"
      backend := { keeperRequest.backend with outcome := .ok () } }
  parseAgentId _ := some ⟨0⟩
  run _ _ _ registry := (⟨[], ⟨0, 0⟩, 0, .complete⟩, registry)

theorem faithful_keeperRun :
  Faithful keeperRun
  := by
  constructor
  case getManifest =>
    intro spec registry id
    rfl
  case parseAgentId => rfl

/-- The request with the manifest as a text is refused. -/
theorem runsOneShotsOnly_given :
  Faithful keeperRun ∧ RunsOneShotsOnly keeperRun (emptyServer true)
    (.obj [("message".toList, .str "Go.".toList),
      ("manifest".toList, .str keeperManifest.yaml)]) .null
  := by
  refine ⟨faithful_keeperRun, (runsOneShotsOnly_iff faithful_keeperRun _ _ _).mpr ?_⟩
  intro path yaml manifest _ hgiven
  cases hgiven

/-- The request with the manifest in a file executes the persistent agent. -/
theorem not_runsOneShotsOnly_file :
  ¬ RunsOneShotsOnly keeperRun (emptyServer true)
    (.obj [("message".toList, .str "Go.".toList),
      ("manifest_path".toList, .str "keeper.yaml".toList)]) .null
  := by
  intro hruns
  exact hruns.executed ⟨0⟩ keeperManifest rfl rfl

end Server
