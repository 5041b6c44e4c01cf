import AaOS.Core.Json
import AaOS.Lib.Table

/-!
# Roles

A role describes a kind of agent; a plan instantiates it with parameters.
`aaos-runtime/src/plan/role.rs` checks the parameters, substitutes them in the
capabilities of the role, and writes the manifest of the agent as a YAML text.
-/

open List Text

inductive ParameterType where
  | string
  | path
  | stringList
deriving DecidableEq, Repr

structure ParameterSchema where
  paramType : ParameterType
  required : Bool

/-- A signal that a subtask calls for a stronger model. -/
inductive EscalationSignal where
  | replanRetry
  | toolRepeatGuard
  | maxTokens
deriving DecidableEq, Repr

def defaultEscalationSignals : List EscalationSignal := [.replanRetry, .toolRepeatGuard, .maxTokens]

structure RoleBudget where
  maxOutputTokens : UInt64

/-- The work of a role that needs no model. -/
structure RoleScaffold where
  kind : Text

/-- The bounds on the turns of an agent. -/
structure RoleOrchestration where
  maxIterations : UInt32 := 50
  commitNudges : UInt32 := 0

/-- A role. -/
structure Role where
  name : Text
  model : Text
  parameters : Table Text ParameterSchema
  capabilities : List Text
  systemPrompt : Text
  messageTemplate : Text
  budget : RoleBudget
  modelLadder : List Text := []
  escalateOn : List EscalationSignal := defaultEscalationSignals
  scaffold : Option RoleScaffold := none
  orchestration : RoleOrchestration := {}
  requireDeclaredOutput : Bool := false

namespace ParameterType

def admits : ParameterType → Json → Bool
  | string, value | path, value => value.asStr.isSome
  | stringList, value =>
    match value.asArray with
    | some elems => elems.all (fun elem => elem.asStr.isSome)
    | none => false

def expected : ParameterType → Text
  | string => "string"
  | path => "string (path)"
  | stringList => "array of strings"

end ParameterType

/-- Check the parameters of a plan, and describe all problems at once. -/
def Role.validateParams (role : Role) (params : Json) : Except Text Unit :=
  match params.asObject with
  | none =>
    .error ("role '" ++ role.name ++ "' expected params object, got non-object")
  | some fields =>
    let missing := role.parameters.entries.filterMap fun ⟨name, schema⟩ =>
      if schema.required && (fields.lookup name).isNone then
        some ("missing required param '" ++ name ++ "'")
      else none
    let unknown := fields.filterMap fun (name, _) =>
      if (role.parameters.lookup name).isNone then
        some ("unknown param '" ++ name ++ "'")
      else none
    let illTyped := fields.filterMap fun (name, value) =>
      match role.parameters.lookup name with
      | none => none
      | some schema =>
        if schema.paramType.admits value then none
        else
          some ("param '" ++ name ++ "' must be " ++ schema.paramType.expected)
    let problems := missing ++ unknown ++ illTyped
    if problems = [] then .ok ()
    else
      .error ("role '" ++ role.name ++ "' param validation failed: "
        ++ "; ".toList.intercalate problems)

def Role.resolvedLadder (role : Role) : Except Text (List Text) :=
  match role.modelLadder with
  | [] => .ok [role.model]
  | first :: rest =>
    if first ≠ role.model then
      .error ("role '" ++ role.name ++ "': model_ladder[0] = '" ++ first
        ++ "' but model = '" ++ role.model
        ++ "' — the two must match (model is the display/back-compat field; "
        ++ "the ladder drives routing)")
    else .ok (first :: rest)

section Render

/-! ### Substitution of parameters

The text of a value other than a string, an array or `null` is a parameter. -/

variable (toText : Json → Text)

mutual

def renderValue : Json → Text
  | .str s => s
  | .arr elems => ", ".toList.intercalate (renderValues elems)
  | .null => []
  | other => toText other

def renderValues : List Json → List Text
  | [] => []
  | value :: values => renderValue value :: renderValues values

end

/-- The text with the names in braces replaced by their values, one parameter after the other. -/
def substituteTokens (template : Text) (params : Json) : Text :=
  match params.asObject with
  | none => template
  | some fields =>
    fields.foldl
      (fun out (name, value) =>
        Text.replace ('{' :: (name ++ ['}'])) (renderValue toText value) out)
      template

def splitBraces (s : Text) : Option (Text × Text × Text) :=
  match Text.splitFirst ['{'] s with
  | none => none
  | some (before, rest) =>
    (Text.splitFirst ['}'] rest).map (fun (inner, after) => (before, inner, after))

def hasUnresolvedTemplateToken (s : Text) : Bool :=
  match splitBraces s with
  | none => false
  | some (_, inner, _) => inner ≠ []

theorem eq_of_splitBraces_eq_some {s before inner after : Text}
    (h : splitBraces s = some (before, inner, after)) :
  s = before ++ '{' :: (inner ++ '}' :: after)
  := by
  unfold splitBraces at h
  cases hopen : splitFirst ['{'] s with
  | none =>
    rw [hopen] at h
    cases h
  | some parts =>
    rw [hopen] at h
    obtain ⟨⟨_, _⟩, hclose, heq⟩ := Option.map_eq_some_iff.mp h
    cases heq
    rw [eq_of_splitFirst_eq_some hopen, eq_of_splitFirst_eq_some hclose]
    simp

theorem length_lt_of_splitBraces_eq_some {s before inner after : Text}
    (h : splitBraces s = some (before, inner, after)) :
  after.length < s.length
  := by
  rw [eq_of_splitBraces_eq_some h]
  simp only [length_append, length_cons]
  omega

def findArrayToken (s : Text) : Option (Text × Text × Text) :=
  match _hbraces : splitBraces s with
  | none => none
  | some (before, inner, after) =>
    match (Text.stripSuffix '*' inner).bind (Text.stripSuffix '.') with
    | some (c :: name) => some (before, c :: name, after)
    | _ =>
      (findArrayToken after).map fun (before', name, after') =>
        (before ++ '{' :: (inner ++ '}' :: before'), name, after')
termination_by s.length
decreasing_by exact length_lt_of_splitBraces_eq_some _hbraces

theorem findArrayToken_eq (s : Text) :
  findArrayToken s
    = match splitBraces s with
      | none => none
      | some (before, inner, after) =>
        match (stripSuffix '*' inner).bind (stripSuffix '.') with
        | some (c :: name) => some (before, c :: name, after)
        | _ =>
          (findArrayToken after).map fun (before', name, after') =>
            (before ++ '{' :: (inner ++ '}' :: before'), name, after')
  := by
  rw [findArrayToken]
  split <;> rename_i hbrace <;> rw [hbrace]

/-- The capabilities that a template stands for; those with unresolved names are dropped. -/
def expandCapability (template : Text) (params : Json) : List Text :=
  match findArrayToken template with
  | some (before, name, after) =>
    match (params.get name).bind Json.asArray with
    | none => []
    | some elems =>
      ((elems.filterMap Json.asStr).map fun elem =>
        substituteTokens toText (before ++ elem ++ after) params).filter
          fun rendered => !hasUnresolvedTemplateToken rendered
  | none =>
    let rendered := substituteTokens toText template params
    if hasUnresolvedTemplateToken rendered then [] else [rendered]

def indent (s indentation : Text) : Text :=
  ['\n'].intercalate (s.lines.map (indentation ++ ·))

namespace Role

variable (role : Role)

def expandedCapabilities (params : Json) : List Text :=
  role.capabilities.flatMap (fun template => expandCapability toText template params)

def capabilityLine (capability : Text) : Text :=
  Text.line ("  - \"" ++ Text.replace ['"'] "\\\"" capability ++ "\"")

def renderManifestWithModel (model : Text) (params : Json) : Text :=
  Text.line ("name: " ++ role.name)
    ++ Text.line ("model: " ++ model)
    ++ Text.line "system_prompt: |"
    ++ Text.line (indent role.systemPrompt "  ")
    ++ Text.line "capabilities:"
    ++ ((role.expandedCapabilities toText params).map capabilityLine).flatten

def renderMessage (params : Json) : Text :=
  substituteTokens toText role.messageTemplate params

end Role

end Render

/-! ### Accepted parameters -/

theorem Role.exists_admits_of_validateParams {role : Role} {fields : List (Text × Json)}
    (h : role.validateParams (.obj fields) = .ok ()) {field : Text × Json} (hmem : field ∈ fields) :
  ∃ t : ParameterType, t.admits field.2 = true
  := by
  simp only [validateParams, Json.asObject] at h
  split_ifs at h with hprob
  obtain ⟨hmis, htyped⟩ := append_eq_nil_iff.mp hprob
  have hknown := filterMap_eq_nil_iff.mp (append_eq_nil_iff.mp hmis).2 field hmem
  have hadmit := filterMap_eq_nil_iff.mp htyped field hmem
  cases hlook : role.parameters.lookup field.1 with
  | none => simp [hlook] at hknown
  | some schema =>
    use schema.paramType
    by_contra hnot
    simp [hlook, hnot] at hadmit
