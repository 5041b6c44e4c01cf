import AaOS.Core.Error

/-!
# Agent manifests

The parts of `aaos-core/src/manifest.rs` that say what an agent is and what it may do.
-/

inductive PromptSource where
  | inline (s : Text)
  | file (path : Text)

inductive Lifecycle where
  | onDemand
  | persistent
  | scheduled (schedule : Text)
deriving DecidableEq, Repr

/-- A declaration in a manifest; parameters are listed with their names. -/
inductive CapabilityDeclaration where
  | simple (s : Text)
  | withParams (params : List (Text × Json))

/-- The manifest of an agent. -/
structure AgentManifest where
  name : Text
  model : Text
  systemPrompt : PromptSource
  capabilities : List CapabilityDeclaration
  lifecycle : Lifecycle := .onDemand
  approvalRequired : List Text := []
  budgetConfig : Option BudgetConfig

namespace AgentManifest

def validate (manifest : AgentManifest) : Except CoreError Unit :=
  if manifest.name = [] then .error (.invalidManifest "name is required")
  else if manifest.model = [] then .error (.invalidManifest "model is required")
  else .ok ()

/-- Read a manifest from a YAML text with the given reader, and check it. -/
def fromYaml (parse : Text → Except Text AgentManifest) (yaml : Text) :
    Except CoreError AgentManifest :=
  match parse yaml with
  | .error message => .error (.yaml message)
  | .ok manifest => manifest.validate.map (fun _ => manifest)

/-- A manifest that was read is the one that the reader found, and is valid. -/
theorem fromYaml_eq_ok {parse : Text → Except Text AgentManifest} {yaml : Text}
    {manifest : AgentManifest} :
  fromYaml parse yaml = .ok manifest
    ↔ parse yaml = .ok manifest ∧ manifest.name ≠ [] ∧ manifest.model ≠ []
  := by
  unfold fromYaml validate
  cases parse yaml with
  | error message => simp
  | ok manifest' =>
    dsimp only
    split_ifs with hname hmodel
    · constructor
      · rintro ⟨⟩
      · rintro ⟨⟨⟩, hne, _⟩
        exact absurd hname hne
    · constructor
      · rintro ⟨⟩
      · rintro ⟨⟨⟩, _, hne⟩
        exact absurd hmodel hne
    · constructor
      · rintro ⟨⟩
        exact ⟨rfl, hname, hmodel⟩
      · rintro ⟨⟨⟩, _⟩
        rfl

/-- The text of a manifest with a prompt of one line and declarations without parameters. -/
def yaml (manifest : AgentManifest) : Text :=
  Text.line ("name: " ++ manifest.name) ++ Text.line ("model: " ++ manifest.model)
    ++ (match manifest.systemPrompt with
      | .inline s => Text.line ("system_prompt: " ++ s)
      | .file path => Text.line ("system_prompt_file: " ++ path))
    ++ (if manifest.lifecycle = .persistent then Text.line "lifecycle: persistent" else [])
    ++ Text.line "capabilities:"
    ++ manifest.capabilities.flatMap fun
      | .simple s => Text.line ("  - \"" ++ s ++ "\"")
      | .withParams _ => []

/-- A reader that knows one manifest, by its text. -/
def readOnly (manifest : AgentManifest) (text : Text) : Except Text AgentManifest :=
  if text = manifest.yaml then .ok manifest else .error "not the manifest"

end AgentManifest
