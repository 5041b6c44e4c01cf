import AaOS.Lib.Layering
import AaOS.Plan.Role

/-!
# Plans

`validate_plan_structure` of `aaos-runtime/src/plan/planner.rs` accepts a plan with a final output
and at least one subtask, distinct identifiers, roles of the catalog, and dependencies on its own
subtasks.
-/

open List

abbrev SubtaskId : Type := Text

/-- The bounds on a subtask: a number of hops, and a duration in nanoseconds. -/
structure TaskTtl where
  maxHops : Option UInt32
  maxWallClock : Option Nat
deriving DecidableEq, Repr

/-- A subtask of a plan. -/
structure Subtask where
  id : SubtaskId
  role : Text
  params : Json := .null
  dependsOn : List SubtaskId := []
  ttl : Option TaskTtl := none
  currentModelTier : UInt8 := 0

/-- A plan. -/
structure Plan where
  subtasks : List Subtask
  finalOutput : Text

abbrev RoleCatalog : Type := Table Text Role

inductive PlannerError where
  | llmCall (message : Text)
  | malformed (message : Text)

/-- The first dependency that is not known, after the subtask it is a dependency of. -/
def unknownDependency (known : SubtaskId → Bool) (subtasks : List Subtask) :
    Option (SubtaskId × SubtaskId) :=
  (subtasks.flatMap (fun s => s.dependsOn.map (fun d => (s.id, d)))).find?
    (fun dependency => !known dependency.2)

def checkDependencies (known : SubtaskId → Bool) (subtasks : List Subtask) : Except Text Unit :=
  match unknownDependency known subtasks with
  | some (id, d) =>
    .error ("subtask '" ++ id ++ "' depends on unknown id '" ++ d ++ "'")
  | none => .ok ()

def checkSubtasks (catalog : RoleCatalog) (seen : List SubtaskId) :
    List Subtask → Except PlannerError (List SubtaskId)
  | [] => .ok seen
  | s :: rest =>
    if s.id ∈ seen then .error (.malformed ("duplicate subtask id: " ++ s.id))
    else if (catalog.lookup s.role).isNone then
      .error (.malformed ("unknown role: " ++ s.role))
    else checkSubtasks catalog (seen ++ [s.id]) rest

/-- Check the structure of a plan. -/
def validatePlanStructure (plan : Plan) (catalog : RoleCatalog) : Except PlannerError Unit :=
  if plan.finalOutput = [] then .error (.malformed "final_output missing")
  else if plan.subtasks.isEmpty then .error (.malformed "subtasks empty")
  else
    match checkSubtasks catalog [] plan.subtasks with
    | .error e => .error e
    | .ok seen =>
      match checkDependencies (fun d => seen.contains d) plan.subtasks with
      | .error message => .error (.malformed message)
      | .ok () => .ok ()

/-! ### Well-formed plans -/

def Plan.ids (plan : Plan) : List SubtaskId := plan.subtasks.map (·.id)

/-- A plan without the flaws that the planner looks for. -/
structure Plan.WellFormed (catalog : RoleCatalog) (plan : Plan) : Prop where
  finalOutput_ne : plan.finalOutput ≠ []
  subtasks_ne : plan.subtasks ≠ []
  nodup : plan.ids.Nodup
  role : ∀ s ∈ plan.subtasks, (catalog.lookup s.role).isSome = true
  known : ∀ s ∈ plan.subtasks, ∀ d ∈ s.dependsOn, d ∈ plan.ids

variable {subtasks : List Subtask}

theorem unknownDependency_eq_none {known : SubtaskId → Bool} :
  unknownDependency known subtasks = none
    ↔ ∀ s ∈ subtasks, ∀ d ∈ s.dependsOn, known d = true
  := by
  simp only [unknownDependency, find?_eq_none, mem_flatMap, mem_map]
  constructor
  · intro hnone s hs d hd
    simpa using hnone (s.id, d) ⟨s, hs, d, hd, rfl⟩
  · rintro hknown _ ⟨s, hs, d, hd, rfl⟩
    simp [hknown s hs d hd]

theorem checkDependencies_eq_ok {known : SubtaskId → Bool} :
  checkDependencies known subtasks = .ok ()
    ↔ ∀ s ∈ subtasks, ∀ d ∈ s.dependsOn, known d = true
  := by
  rw [← unknownDependency_eq_none, checkDependencies]
  cases unknownDependency known subtasks with
  | none => simp only
  | some unknown => simp

variable {catalog : RoleCatalog}

/-- The loop ends with all identifiers, when they are distinct and the roles are in the catalog. -/
theorem checkSubtasks_eq_ok {seen ids : List SubtaskId} (hseen : seen.Nodup) :
  checkSubtasks catalog seen subtasks = .ok ids
    ↔ (seen ++ subtasks.map (·.id)).Nodup
      ∧ (∀ s ∈ subtasks, (catalog.lookup s.role).isSome = true)
      ∧ ids = seen ++ subtasks.map (·.id)
  := by
  induction subtasks generalizing seen with
  | nil =>
    rw [checkSubtasks, Except.ok.injEq, eq_comm]
    simp [hseen]
  | cons s rest ih =>
    rw [checkSubtasks]
    by_cases hdup : s.id ∈ seen
    · rw [if_pos hdup]
      have hnot : ¬ (seen ++ (s :: rest).map (·.id)).Nodup := by
        rw [map_cons, nodup_append]
        rintro ⟨-, -, hdis⟩
        apply hdis s.id hdup s.id mem_cons_self rfl
      simp only [hnot, false_and, reduceCtorEq]
    · rw [if_neg hdup]
      cases hrole : catalog.lookup s.role with
      | none => simp [hrole]
      | some role =>
        have hnodup : (seen ++ [s.id]).Nodup := by
          rw [← concat_eq_append]
          apply List.Nodup.concat hdup hseen
        simp [ih hnodup, hrole]

theorem validatePlanStructure_eq_ok {plan : Plan} :
  validatePlanStructure plan catalog = .ok () ↔ plan.WellFormed catalog
  := by
  unfold validatePlanStructure
  constructor
  · intro h
    split_ifs at h with hout hempty
    cases hids : checkSubtasks catalog [] plan.subtasks with
    | error e => simp [hids] at h
    | ok seen =>
      obtain ⟨hnodup, hrole, rfl⟩ := (checkSubtasks_eq_ok nodup_nil).mp hids
      simp only [hids] at h
      generalize hknown : checkDependencies _ _ = checked at h
      cases checked with
      | error message => simp at h
      | ok =>
        rw [checkDependencies_eq_ok] at hknown
        exact ⟨hout, by simpa using hempty, hnodup, hrole, by simpa [Plan.ids] using hknown⟩
  · intro hwf
    have hids : checkSubtasks catalog [] plan.subtasks = .ok plan.ids := by
      rw [checkSubtasks_eq_ok nodup_nil]
      exact ⟨hwf.nodup, hwf.role, rfl⟩
    have hknown : checkDependencies (fun d => plan.ids.contains d) plan.subtasks = .ok () := by
      rw [checkDependencies_eq_ok]
      simpa using hwf.known
    rw [if_neg hwf.finalOutput_ne, if_neg (by simpa using hwf.subtasks_ne), hids]
    simp only [hknown]

/-! ### Dependencies -/

/-- One identifier is a dependency of the subtask with the other one. -/
def Plan.Depends (plan : Plan) (d id : SubtaskId) : Prop :=
  ∃ s ∈ plan.subtasks, s.id = id ∧ d ∈ s.dependsOn

theorem Plan.WellFormed.depends_iff {plan : Plan} (hwf : plan.WellFormed catalog) {s : Subtask}
    (hs : s ∈ plan.subtasks) {d : SubtaskId} :
  plan.Depends d s.id ↔ d ∈ s.dependsOn
  := by
  constructor
  · rintro ⟨t, ht, hid, hd⟩
    obtain rfl := inj_on_of_nodup_map hwf.nodup ht hs hid
    apply hd
  · intro hd
    use s
