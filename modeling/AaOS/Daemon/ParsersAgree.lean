import AaOS.Daemon.SpawnTool

/-!
# The two readers of declarations

Declarations are read by `parse_capability_declaration` of `aaos-runtime/src/registry.rs` when an
operator spawns the agent, and by `parse_capability` of `agentd/src/spawn_tool.rs` when an agent
does.  A manifest means the same to both exactly when no declaration has a name and parameters.
-/

open Text

variable (toLowercase : Text → Text)

def ParsersAgree (declaration : CapabilityDeclaration) : Prop :=
  parseCapability toLowercase declaration = parseCapabilityDeclaration toLowercase declaration

def CapabilityDeclaration.givenName : CapabilityDeclaration → Option Text
  | .simple _ => none
  | .withParams params => (params.lookup "name".toList).bind Json.asStr

variable {toLowercase}

theorem parseCapability_simple (s : Text) :
  parseCapability toLowercase (.simple s) = some (parseSimpleDeclaration toLowercase s)
  := by
  unfold parseCapability parseSimpleDeclaration
  dsimp only
  generalize trim s = t
  by_cases hfind : t = "web_search"
  · rw [if_pos hfind, if_pos hfind]
  rw [if_neg hfind, if_neg hfind]
  cases stripPrefix "file_read:" t with
  | some _ => rfl
  | none =>
  cases stripPrefix "file_write:" t with
  | some _ => rfl
  | none =>
  cases stripPrefix "tool:" t with
  | some _ => rfl
  | none =>
  cases stripPrefix "spawn_child:" t with
  | some _ => rfl
  | none =>
  cases stripPrefix "cargo_run:" t with
  | some _ => rfl
  | none =>
  cases stripPrefix "git_commit:" t with
  | some _ => rfl
  | none =>
  cases stripPrefix "network:" t with
  | some _ => rfl
  | none => rfl

/-- The readers agree on a declaration exactly when it is a text, or no parameter of it is a name
that is a string. -/
theorem parsersAgree_iff (declaration : CapabilityDeclaration) :
  ParsersAgree toLowercase declaration ↔ declaration.givenName = none
  := by
  unfold ParsersAgree CapabilityDeclaration.givenName
  cases declaration with
  | simple s => simp only [parseCapability_simple, parseCapabilityDeclaration]
  | withParams params =>
    rw [parseCapability, parseCapabilityDeclaration, eq_comm, Option.map_eq_none_iff]

/-- The registry reads a declaration with a name as a capability, and the tool does not. -/
theorem not_parsersAgree_named :
  parseCapability id (.withParams [("name".toList, .str "deploy".toList)]) = none
    ∧ parseCapabilityDeclaration id (.withParams [("name".toList, .str "deploy".toList)])
      = some (.custom "deploy".toList (.obj []))
    ∧ ¬ ParsersAgree id (.withParams [("name".toList, .str "deploy".toList)])
  := by
  refine ⟨rfl, rfl, ?_⟩
  intro hagree
  cases hagree
