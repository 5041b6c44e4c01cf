import AaOS.Plan.Structure

/-!
# Declared outputs

A role that may write a single file, named by a parameter, declares that file as an output, which
`check_declared_outputs_exist` of `aaos-runtime/src/plan/executor.rs` looks
for.  `aaos-runtime/src/plan/placeholders.rs` fills in the directory of the run.
-/

/-! ### Placeholders -/

/-- The values of the placeholders in parameters. -/
structure Substitutions where
  runRoot : Text

namespace Substitutions

variable (subs : Substitutions)

def applyStr (s : Text) : Text := Text.replace "\x7brun\x7d" subs.runRoot s

mutual

/-- The value with the placeholders in its strings replaced. -/
def apply : Json → Json
  | .str s => .str (subs.applyStr s)
  | .arr elems => .arr (applyElems elems)
  | .obj fields => .obj (applyFields fields)
  | .null => .null
  | .bool b => .bool b
  | .num literal => .num literal

def applyElems : List Json → List Json
  | [] => []
  | value :: values => apply value :: applyElems values

def applyFields : List (Text × Json) → List (Text × Json)
  | [] => []
  | (name, value) :: fields => (name, apply value) :: applyFields fields

end

end Substitutions

/-! ### Outputs -/

inductive SubtaskOutputStatus where
  | present
  | missingAdvisory (reason : Text)
  | missingFatal (reason : Text)

def endsWith (w s : Text) : Bool := w.isSuffixOf s

def declaredOutput (params : Json) (grant : Text) : Option (Text × Text) :=
  match Text.stripPrefix "file_write:" grant with
  | none => none
  | some rest =>
    let rest := Text.trim rest
    if endsWith "/*" rest || endsWith "/**" rest then none
    else
      match (Text.stripPrefix ['{'] rest).bind (Text.stripSuffix '}') with
      | none => none
      | some name => ((params.get name).bind Json.asStr).map (name, ·)

/-- Look for the declared outputs of a subtask, up to the first one that is missing. -/
def checkDeclaredOutputsExist (catalog : RoleCatalog) (pathExists : Text → Bool)
    (s : Subtask) (subs : Substitutions) : SubtaskOutputStatus :=
  match catalog.lookup s.role with
  | none => .present
  | some role =>
    let missing := (role.capabilities.filterMap (declaredOutput (subs.apply s.params))).find?
      (fun (_, path) => !pathExists path)
    match missing with
    | none => .present
    | some (name, path) =>
      let reason :=
        "'" ++ path ++ "' (from \x7b" ++ name ++ "\x7d) was not written"
      if role.requireDeclaredOutput then .missingFatal reason else .missingAdvisory reason
