import AaOS.Executor.Loop
import AaOS.Plan.Structure

/-!
# The planner

`call_and_parse` of `aaos-runtime/src/plan/planner.rs` looks for a JSON object in the first text of
the answer of a model, reads it as a plan, fills in the time to live of its subtasks and checks its
structure.
-/

/-! ### Answers -/

def closeBraces : Nat → Text → Option Text
  | _, [] => none
  | depth, c :: rest =>
    if c = '{' then (closeBraces (depth + 1) rest).map (c :: ·)
    else if c = '}' then
      if depth - 1 = 0 then some [c] else (closeBraces (depth - 1) rest).map (c :: ·)
    else (closeBraces depth rest).map (c :: ·)

/-- The first text in braces. -/
def extractJson (text : Text) : Option Text := closeBraces 0 (text.dropWhile (· ≠ '{'))

/-- The first bytes of a text, unless a character would be cut. -/
def takeBytes : Nat → Text → Option Text
  | 0, _ => some []
  | _ + 1, [] => none
  | n + 1, c :: s =>
    if c.utf8Size ≤ n + 1 then (takeBytes (n + 1 - c.utf8Size) s).map (c :: ·) else none

/-- A text that is cut to a number of bytes.  To cut a character is a panic. -/
def truncate (s : Text) (n : Nat) : Option Text :=
  if Text.utf8Len s ≤ n then some s else (takeBytes n s).map (· ++ "...")

/-! ### Plans -/

def applyTtlFallback (plan : Plan) : Option TaskTtl → Plan
  | none => plan
  | some fallback =>
    { plan with
      subtasks := plan.subtasks.map fun s => { s with ttl := some (s.ttl.getD fallback) } }

/-- The planner. -/
structure Planner where
  fromStr : Text → Except Text Plan
  defaultTaskTtl : Option TaskTtl

namespace Planner

variable (planner : Planner) (catalog : RoleCatalog)

/-- Read the answer of the model as a plan.  There is no result if the thread panics. -/
def callAndParse : LlmResult → Option (Except PlannerError Plan)
  | .error e => some (.error (.llmCall e.text))
  | .ok response =>
    match response.content.findSome? ContentBlock.asText with
    | none => some (.error (.malformed "no text block in LLM response"))
    | some text =>
      match extractJson text with
      | none =>
        (truncate text 200).map fun text =>
          .error (.malformed ("no JSON in response: " ++ text))
      | some json =>
        match planner.fromStr json with
        | .error message => some (.error (.malformed ("JSON parse: " ++ message)))
        | .ok plan =>
          let plan := applyTtlFallback plan planner.defaultTaskTtl
          match validatePlanStructure plan catalog with
          | .error e => some (.error e)
          | .ok () => some (.ok plan)

def Accepts (answer : LlmResult) (plan : Plan) : Prop :=
  planner.callAndParse catalog answer = some (.ok plan)

/-- The model answers, but not with a plan. -/
def Malformed (answer : LlmResult) : Prop :=
  planner.callAndParse catalog answer = none
    ∨ ∃ message, planner.callAndParse catalog answer = some (.error (.malformed message))

variable {planner catalog}

theorem Accepts.exists_fromStr {answer : LlmResult} {plan : Plan}
    (hacc : planner.Accepts catalog answer plan) :
  ∃ json parsed, planner.fromStr json = .ok parsed
    ∧ plan = applyTtlFallback parsed planner.defaultTaskTtl
    ∧ validatePlanStructure plan catalog = .ok ()
  := by
  unfold Accepts callAndParse at hacc
  split at hacc
  · cases hacc
  · split at hacc
    · cases hacc
    · split at hacc
      · simp at hacc
      · split at hacc
        · cases hacc
        · rename_i parsed hpar
          dsimp only at hacc
          split at hacc
          · cases hacc
          · rename_i hvalid
            cases hacc
            exact ⟨_, parsed, hpar, rfl, hvalid⟩

theorem Accepts.wellFormed {answer : LlmResult} {plan : Plan}
    (hacc : planner.Accepts catalog answer plan) :
  plan.WellFormed catalog
  := by
  obtain ⟨-, -, -, -, hvalid⟩ := hacc.exists_fromStr
  apply validatePlanStructure_eq_ok.mp hvalid

end Planner
