import AaOS.Lib.History
import AaOS.Plan.Steps

/-!
# The discipline of executions

An execution of a plan launches each subtask at most once, and only when the results of
all subtasks that it depends on are in the map of results.  Every subtask of a batch that
is attempted is reported once, as a success exactly when its result is in the map.
-/

open List

namespace PlanExecutor

def launchedId : PlanStep → Option SubtaskId
  | .launch s => some s.id
  | _ => none

def completionOf (id : SubtaskId) : PlanStep → Option (AgentId × Bool)
  | .record (.completed agentId id' success) => if id' = id then some (agentId, success) else none
  | _ => none

/-- What is expected of an execution of a plan. -/
structure Disciplined (executor : PlanExecutor) (attempt : Attempt) (plan : Plan)
    (executed : Executed) : Prop where
  dependencies : ∀ before s after, executed.steps = before ++ .launch s :: after →
    ∀ d ∈ s.dependsOn, ((resultsAfter before).lookup d).isSome = true
  once : (executed.steps.filterMap launchedId).Nodup
  refused : (¬ ∃ batches, executor.Launches attempt plan batches) →
    ∀ s, .launch s ∉ executed.steps
  results : ∀ result, executed.outcome = .ok result →
    ∀ id, (result.results.lookup id).isSome = true ↔ id ∈ plan.ids
  completions : ∀ batches, executor.Launches attempt plan batches →
    ∀ batch ∈ batches, (∃ s ∈ batch, .launch s ∈ executed.steps) →
    ∀ s ∈ batch, ∃ agentId success,
      executed.steps.filterMap (completionOf s.id) = [(agentId, success)]
        ∧ (success = true ↔ (executed.results.lookup s.id).isSome = true)

variable {executor : PlanExecutor} {attempt : Attempt}

/-! ### The steps of a batch -/

section Batch

variable {s : Subtask} {batch : List Subtask}

theorem launch_mem_batchSteps :
  .launch s ∈ executor.batchSteps attempt batch ↔ s ∈ batch
  := by
  rw [mem_batchSteps]
  constructor
  · rintro ⟨t, ht, hstep | hstep⟩
    · obtain hstep | ⟨event, -, hstep⟩ := mem_spawnSteps.mp hstep
      · cases hstep
        apply ht
      · cases hstep
    · cases hver : executor.verdict attempt t <;> simp [hver, Verdict.steps] at hstep
  · intro hs
    use s, hs
    apply Or.inl
    apply mem_spawnSteps.mpr (.inl rfl)

theorem insert_mem_batchSteps {id : SubtaskId} :
  (∃ r, .insert id r ∈ executor.batchSteps attempt batch)
    ↔ ∃ s ∈ batch, s.id = id ∧ executor.fails attempt s = false
  := by
  simp only [mem_batchSteps]
  constructor
  · rintro ⟨r, t, ht, hstep | hstep⟩
    · obtain hstep | ⟨event, -, hstep⟩ := mem_spawnSteps.mp hstep <;> cases hstep
    · use t, ht
      cases hver : executor.verdict attempt t with
      | succeeded r' missing =>
        simp only [hver, Verdict.steps, mem_append, Option.mem_toList, Option.map_eq_some_iff,
          mem_cons, reduceCtorEq, PlanStep.insert.injEq, false_or, not_mem_nil,
          or_false, and_false, exists_false] at hstep
        simp [fails, hver, Verdict.failure, hstep.1]
      | failed agentId reason => simp [hver, Verdict.steps] at hstep
  · rintro ⟨t, ht, rfl, hfails⟩
    cases hver : executor.verdict attempt t with
    | succeeded r missing =>
      use r, t, ht
      simp [hver, Verdict.steps]
    | failed agentId reason => simp [fails, hver, Verdict.failure] at hfails

theorem filterMap_launchedId_batchSteps :
  ((executor.batchSteps attempt batch).filterMap launchedId).Perm (batch.map (·.id))
  := by
  have hset : (executor.settleSteps attempt batch).filterMap launchedId = [] := by
    rw [filterMap_eq_nil_iff]
    intro step hstep
    obtain ⟨s, -, hstep⟩ := mem_flatMap.mp hstep
    cases step with
    | launch t => cases hver : executor.verdict attempt s <;> simp [hver, Verdict.steps] at hstep
    | _ => rfl
  have hspawn : ∀ s, (executor.spawnSteps attempt s).filterMap launchedId = [s.id] := by
    intro s
    have hrec : ((executor.spawn attempt s).1.map PlanStep.record).filterMap launchedId = [] := by
      simp [filterMap_eq_nil_iff, launchedId]
    rw [spawnSteps, filterMap_cons, hrec]
    rfl
  have hflat : (batch.map (executor.spawnSteps attempt)).flatten.filterMap launchedId
      = batch.map (·.id) := by
    rw [filterMap_flatten, map_map]
    simp only [Function.comp_def, hspawn]
    rw [← flatMap_def, ← map_eq_flatMap]
  rw [batchSteps, filterMap_append, hset, append_nil, ← hflat]
  apply (attempt.join.perm _).filterMap

/-- What is reported about the end of a subtask. -/
def Verdict.completion : Verdict → AgentId × Bool
  | succeeded r _ => (r.agentId, true)
  | failed agentId _ => (agentId, false)

theorem filterMap_completionOf_steps (id : SubtaskId) (verdict : Verdict) :
  (verdict.steps s).filterMap (completionOf id) = if s.id = id then [verdict.completion] else []
  := by
  cases verdict with
  | succeeded r missing =>
    cases missing <;> by_cases hid : s.id = id <;>
      simp [Verdict.steps, completionOf, Verdict.completion, hid, filterMap_cons]
  | failed agentId reason =>
    by_cases hid : s.id = id <;> simp [Verdict.steps, completionOf, Verdict.completion, hid]

/-- The reports of a batch come from the examination of its results. -/
theorem filterMap_completionOf_batchSteps (id : SubtaskId) :
  (executor.batchSteps attempt batch).filterMap (completionOf id)
    = batch.flatMap
        (fun s => if s.id = id then [(executor.verdict attempt s).completion] else [])
  := by
  have hjoin : (attempt.join.merge (batch.map (executor.spawnSteps attempt))).filterMap
      (completionOf id) = [] := by
    rw [filterMap_eq_nil_iff]
    intro step hstep
    obtain ⟨s, -, hstep⟩ := mem_merge.mp hstep
    obtain rfl | ⟨event, hevent, rfl⟩ := mem_spawnSteps.mp hstep
    · rfl
    · obtain rfl | ⟨reason, rfl⟩ | ⟨agentId, e, rfl⟩ := mem_spawn hevent <;> rfl
  rw [batchSteps, filterMap_append, hjoin, nil_append, settleSteps, filterMap_flatMap]
  simp only [filterMap_completionOf_steps]

end Batch

/-! ### The steps of an execution -/

section Run

variable {subtasks : List Subtask} {batches : List (List Subtask)}

theorem nodup_attempted (hnodup : (batches.flatten.map (·.id)).Nodup) :
  ((attempted (executor.batchFails attempt) batches).flatten.map (·.id)).Nodup
  := by
  obtain ⟨rest, hrest⟩ := attempted_append (executor.batchFails attempt) batches
  rw [← hrest, flatten_append, map_append] at hnodup
  apply hnodup.of_append_left

variable {s : Subtask}

theorem isSome_lookup_of_launch (hlayer : Layered subtasks batches) {before after : List PlanStep}
    {d : SubtaskId}
    (heq : (attempted (executor.batchFails attempt) batches).flatMap (executor.batchSteps attempt)
      = before ++ .launch s :: after) (hd : d ∈ s.dependsOn) :
  ((resultsAfter before).lookup d).isSome = true
  := by
  obtain ⟨earlier, batch, later, first, last, hdone, hbatch, rfl⟩ := exists_of_flatMap_eq heq
  obtain ⟨rest, hrest⟩ := attempted_append (executor.batchFails attempt) batches
  have hbat : batches = earlier ++ batch :: (later ++ rest) := by
    rw [← hrest, hdone, append_assoc, cons_append]
  have hlaun : .launch s ∈ executor.batchSteps attempt batch := by simp [hbatch]
  have hs := launch_mem_batchSteps.mp hlaun
  obtain ⟨j, hj, b, hb, hid⟩ := hlayer.earlier earlier.length batch (by simp [hbat]) s hs d hd
  rw [hbat, getElem?_append_left hj] at hb
  have hmem : b ∈ earlier := mem_of_getElem? hb
  obtain ⟨t, ht, rfl⟩ := mem_map.mp hid
  have hfails := fails_eq_false_of_attempted hdone b hmem
  rw [batchFails, any_eq_false] at hfails
  obtain ⟨r, hr⟩ := insert_mem_batchSteps.mpr ⟨t, ht, rfl, by simpa using hfails t ht⟩
  rw [isSome_lookup_resultsAfter]
  use r
  apply mem_append_left
  apply mem_flatMap.mpr ⟨b, hmem, hr⟩

theorem filterMap_launchedId_perm (stages : List (List Subtask)) :
  ((stages.flatMap (executor.batchSteps attempt)).filterMap launchedId).Perm
    (stages.flatten.map (·.id))
  := by
  rw [filterMap_flatMap, map_flatten, ← flatMap_def]
  apply List.Perm.flatMap_left
  intro batch _
  apply filterMap_launchedId_batchSteps

/-- Among subtasks with distinct identifiers, one has the given identifier. -/
theorem flatMap_ite_eq {β : Type} {subtasks : List Subtask} (hnodup : (subtasks.map (·.id)).Nodup)
    (hs : s ∈ subtasks) (f : Subtask → List β) :
  subtasks.flatMap (fun t => if t.id = s.id then f t else []) = f s
  := by
  induction subtasks with
  | nil => cases hs
  | cons t subtasks ih =>
    rw [map_cons, nodup_cons] at hnodup
    rw [flatMap_cons]
    obtain rfl | hs := mem_cons.mp hs
    · have hnone : subtasks.flatMap (fun t => if t.id = s.id then f t else []) = [] := by
        rw [flatMap_eq_nil_iff]
        intro t ht
        rw [if_neg]
        intro hid
        apply hnodup.1
        rw [← hid]
        apply mem_map_of_mem ht
      rw [if_pos rfl, hnone, append_nil]
    · have hne : t.id ≠ s.id := by
        intro hid
        apply hnodup.1
        rw [hid]
        apply mem_map_of_mem hs
      rw [if_neg hne, nil_append]
      apply ih hnodup.2 hs

theorem mem_attempted_of_launch (hnodup : (batches.flatten.map (·.id)).Nodup) {batch : List Subtask}
    (hbatch : batch ∈ batches) (hs : s ∈ batch)
    (hlaun : .launch s ∈ (attempted (executor.batchFails attempt) batches).flatMap
      (executor.batchSteps attempt)) :
  batch ∈ attempted (executor.batchFails attempt) batches
  := by
  obtain ⟨rest, hrest⟩ := attempted_append (executor.batchFails attempt) batches
  obtain ⟨b, hb, hlaun⟩ := mem_flatMap.mp hlaun
  rw [← hrest] at hbatch
  obtain hbatch | hbatch := mem_append.mp hbatch
  · apply hbatch
  · exfalso
    rw [← hrest, flatten_append, map_append, nodup_append] at hnodup
    apply hnodup.2.2 s.id _ s.id _ rfl
    · apply mem_map_of_mem
      apply mem_flatten_of_mem hb (launch_mem_batchSteps.mp hlaun)
    · apply mem_map_of_mem
      apply mem_flatten_of_mem hbatch hs

theorem filterMap_completionOf_eq (hnodup : (batches.flatten.map (·.id)).Nodup)
    (hs : s ∈ (attempted (executor.batchFails attempt) batches).flatten) :
  ((attempted (executor.batchFails attempt) batches).flatMap
      (executor.batchSteps attempt)).filterMap (completionOf s.id)
    = [(executor.verdict attempt s).completion]
  := by
  rw [filterMap_flatMap]
  simp only [filterMap_completionOf_batchSteps]
  rw [← flatMap_assoc, flatMap_id']
  apply flatMap_ite_eq (nodup_attempted hnodup) hs

theorem insert_mem_iff (hnodup : (batches.flatten.map (·.id)).Nodup)
    (hs : s ∈ (attempted (executor.batchFails attempt) batches).flatten) :
  (∃ r, .insert s.id r ∈ (attempted (executor.batchFails attempt) batches).flatMap
      (executor.batchSteps attempt))
    ↔ executor.fails attempt s = false
  := by
  constructor
  · rintro ⟨r, hr⟩
    obtain ⟨b, hb, hr⟩ := mem_flatMap.mp hr
    obtain ⟨t, ht, hid, hfails⟩ := insert_mem_batchSteps.mp ⟨r, hr⟩
    obtain rfl := inj_on_of_nodup_map (nodup_attempted hnodup)
      (mem_flatten_of_mem hb ht) hs hid
    apply hfails
  · intro hfails
    obtain ⟨b, hb, hs⟩ := mem_flatten.mp hs
    obtain ⟨r, hr⟩ := insert_mem_batchSteps.mpr ⟨s, hs, rfl, hfails⟩
    use r
    apply mem_flatMap.mpr ⟨b, hb, hr⟩

theorem completion_eq_true (executor : PlanExecutor) (attempt : Attempt) (s : Subtask) :
  (executor.verdict attempt s).completion.2 = true ↔ executor.fails attempt s = false
  := by
  unfold fails
  cases executor.verdict attempt s <;> simp [Verdict.completion, Verdict.failure]

end Run

/-! ### Executions -/

variable {plan : Plan}

/-- The subtasks as the executor collects them: of several with one identifier, the last one
counts. -/
def collected (plan : Plan) : SubtaskMap := SubtaskMap.collect (applyDepthToHops plan).subtasks

theorem values_collected {catalog : RoleCatalog} (hwf : plan.WellFormed catalog) :
  (collected plan).values = (applyDepthToHops plan).subtasks
  := by
  apply SubtaskMap.values_collect
  rw [map_applyDepthToHops (fun _ _ => rfl)]
  apply hwf.nodup

section Launches

variable {batches : List (List Subtask)} (hlaunches : executor.Launches attempt plan batches)

include hlaunches

theorem Launches.layered :
  Layered (collected plan).values batches
  := layered_collect hlaunches.1

theorem Launches.nodup :
  (batches.flatten.map (·.id)).Nodup
  := by
  rw [(hlaunches.layered.perm.map _).nodup_iff]
  apply (collected plan).nodup

end Launches

def collectedPlan (plan : Plan) : Plan := { plan with subtasks := (collected plan).values }

variable {log : List SubtaskEvent} {batches : List (List Subtask)} {s : Subtask}

theorem launch_mem_steps_iff (hlaunches : executor.Launches attempt plan batches) :
  .launch s ∈ (executor.executePlan attempt log plan).steps
    ↔ s ∈ (attempted (executor.batchFails attempt) batches).flatten
  := by
  rw [steps_executePlan log hlaunches, mem_flatMap, mem_flatten]
  simp only [launch_mem_batchSteps]

theorem not_fails_of_depends (hlaunches : executor.Launches attempt plan batches) {d id : SubtaskId}
    (hdep : Relation.TransGen (collectedPlan plan).Depends d id) {t : Subtask}
    (hlaun : .launch t ∈ (executor.executePlan attempt log plan).steps) (hid : t.id = id) :
  ∃ s, s.id = d ∧ .launch s ∈ (executor.executePlan attempt log plan).steps
    ∧ executor.fails attempt s = false
  := by
  have hdir : ∀ {d id t}, (collectedPlan plan).Depends d id →
      .launch t ∈ (executor.executePlan attempt log plan).steps → t.id = id →
      ∃ s, s.id = d ∧ .launch s ∈ (executor.executePlan attempt log plan).steps
        ∧ executor.fails attempt s = false := by
    rintro d _ t ⟨u, hu, hid, hd⟩ hlaun rfl
    obtain ⟨before, after, heq⟩ := append_of_mem hlaun
    rw [steps_executePlan log hlaunches] at heq
    have ht := (launch_mem_steps_iff hlaunches).mp hlaun
    obtain ⟨rest, hrest⟩ := attempted_append (executor.batchFails attempt) batches
    have ht : t ∈ (collected plan).values := by
      rw [← hlaunches.layered.perm.mem_iff, ← hrest, flatten_append]
      apply mem_append_left _ ht
    obtain rfl := inj_on_of_nodup_map (collected plan).nodup hu ht hid
    have hsome := isSome_lookup_of_launch hlaunches.layered heq hd
    obtain ⟨r, hr⟩ := isSome_lookup_resultsAfter.mp hsome
    have hmem : .insert d r ∈ (attempted (executor.batchFails attempt) batches).flatMap
        (executor.batchSteps attempt) := by
      rw [heq]
      apply mem_append_left _ hr
    obtain ⟨b, hb, hr⟩ := mem_flatMap.mp hmem
    obtain ⟨s, hs, rfl, hfails⟩ := insert_mem_batchSteps.mp ⟨r, hr⟩
    use s, rfl
    rw [launch_mem_steps_iff hlaunches]
    exact ⟨mem_flatten_of_mem hb hs, hfails⟩
  induction hdep generalizing t with
  | single hedge => apply hdir hedge hlaun hid
  | tail _ hedge ih =>
    obtain ⟨s, hs, hlaun, -⟩ := hdir hedge hlaun hid
    apply ih hlaun hs

theorem exists_launches_of_launch
    (hlaun : .launch s ∈ (executor.executePlan attempt log plan).steps) :
  ∃ batches, executor.Launches attempt plan batches
  := by
  by_contra hnot
  obtain ⟨reason, heq⟩ := executePlan_of_not_launches log hnot
  rw [heq] at hlaun
  cases hlaun

theorem completionOf_eq_some {id : SubtaskId} {step : PlanStep} {agentId : AgentId}
    {success : Bool} :
  completionOf id step = some (agentId, success) ↔ step = .record (.completed agentId id success)
  := by
  constructor
  · intro h
    unfold completionOf at h
    split at h
    · split_ifs at h with hid
      cases h
      rw [hid]
    · cases h
  · rintro rfl
    simp [completionOf]

theorem completed_mem_iff {success : Bool}
    (hlaun : .launch s ∈ (executor.executePlan attempt log plan).steps) :
  (∃ agentId, .record (.completed agentId s.id success)
      ∈ (executor.executePlan attempt log plan).steps)
    ↔ executor.fails attempt s = !success
  := by
  obtain ⟨batches, hlaunches⟩ := exists_launches_of_launch hlaun
  have honce := filterMap_completionOf_eq hlaunches.nodup
    ((launch_mem_steps_iff hlaunches).mp hlaun)
  rw [← steps_executePlan log hlaunches] at honce
  have hmem (agentId : AgentId) : .record (.completed agentId s.id success)
        ∈ (executor.executePlan attempt log plan).steps
      ↔ (agentId, success) = (executor.verdict attempt s).completion := by
    rw [← mem_filterMap_of_iff (fun _ => completionOf_eq_some), honce, mem_singleton]
  have hcom : (executor.verdict attempt s).completion.2 = !executor.fails attempt s := by
    rw [Bool.eq_iff_iff, completion_eq_true, Bool.not_eq_true']
  simp only [hmem]
  constructor
  · rintro ⟨agentId, heq⟩
    rw [← heq] at hcom
    apply Bool.not_eq_eq_eq_not.mp hcom.symm
  · intro hfails
    rw [hfails, Bool.not_not] at hcom
    use (executor.verdict attempt s).completion.1
    rw [← hcom]

theorem isSome_lookup_iff {result : PlanResult} (hwf : plan.WellFormed executor.catalog)
    (hlaunches : executor.Launches attempt plan batches)
    (hok : (executor.executePlan attempt log plan).outcome = .ok result) (id : SubtaskId) :
  (result.results.lookup id).isSome = true ↔ id ∈ plan.ids
  := by
  rw [executePlan_of_launches log hlaunches] at hok
  obtain ⟨hnone, -, heq⟩ := runBatches_eq_ok hok
  rw [heq, ← executePlan_of_launches log hlaunches, results_executePlan,
    isSome_lookup_resultsAfter, steps_executePlan log hlaunches, attempted_eq_self hnone,
    ← ids_applyDepthToHops, Plan.ids, ← values_collected hwf,
    ← (hlaunches.layered.perm.map _).mem_iff]
  constructor
  · rintro ⟨r, hr⟩
    obtain ⟨batch, hbatch, hr⟩ := mem_flatMap.mp hr
    obtain ⟨s, hs, rfl, -⟩ := insert_mem_batchSteps.mp ⟨r, hr⟩
    apply mem_map_of_mem
    apply mem_flatten_of_mem hbatch hs
  · intro hid
    obtain ⟨s, hs, rfl⟩ := mem_map.mp hid
    obtain ⟨batch, hbatch, hs⟩ := mem_flatten.mp hs
    have hfails := hnone batch hbatch
    rw [batchFails, any_eq_false] at hfails
    obtain ⟨r, hr⟩ := insert_mem_batchSteps.mpr ⟨s, hs, rfl, by simpa using hfails s hs⟩
    use r
    apply mem_flatMap.mpr ⟨batch, hbatch, hr⟩

/-- Every execution of a plan that the planner accepts is disciplined. -/
theorem executePlan_disciplined
    (executor : PlanExecutor) (attempt : Attempt) (log : List SubtaskEvent) {plan : Plan}
    (hvalid : validatePlanStructure plan executor.catalog = .ok ()) :
  executor.Disciplined attempt plan (executor.executePlan attempt log plan)
  := by
  have hwf := validatePlanStructure_eq_ok.mp hvalid
  by_cases hlaunches : ∃ batches, executor.Launches attempt plan batches
  · obtain ⟨batches, hlaunches⟩ := hlaunches
    have hsteps := steps_executePlan log hlaunches
    constructor
    case dependencies =>
      intro before s after heq d hd
      rw [hsteps] at heq
      apply isSome_lookup_of_launch hlaunches.layered heq hd
    case once =>
      rw [hsteps, (filterMap_launchedId_perm _).nodup_iff]
      apply nodup_attempted hlaunches.nodup
    case refused =>
      intro hnot
      exact absurd ⟨batches, hlaunches⟩ hnot
    case results =>
      intro result hok id
      apply isSome_lookup_iff hwf hlaunches hok
    case completions =>
      intro batches' hlaunches' batch hbatch hlaun s hs
      obtain rfl := Except.ok.inj (hlaunches.1.symm.trans hlaunches'.1)
      obtain ⟨t, ht, hlaun⟩ := hlaun
      rw [hsteps] at hlaun
      have hmem := mem_attempted_of_launch hlaunches.nodup hbatch ht hlaun
      have hs := List.mem_flatten_of_mem hmem hs
      use (executor.verdict attempt s).completion.1, (executor.verdict attempt s).completion.2
      constructor
      · rw [hsteps]
        apply filterMap_completionOf_eq hlaunches.nodup hs
      · rw [completion_eq_true, results_executePlan, isSome_lookup_resultsAfter, hsteps,
          insert_mem_iff hlaunches.nodup hs]
  · obtain ⟨reason, heq⟩ := executePlan_of_not_launches log hlaunches
    rw [heq]
    constructor
    case dependencies =>
      intro before s after hnil
      simp at hnil
    case once => simp
    case refused => simp
    case results =>
      intro result hok
      cases hok
    case completions =>
      intro batches hbat
      exact absurd ⟨batches, hbat⟩ hlaunches

end PlanExecutor

/-! ### Examples of executions -/

/-- A runner whose agent does nothing and succeeds. -/
def idleRunner (agentId : AgentId) (launch : SubtaskLaunch) : RunnerFuture where
  agent := some agentId
  events := []
  result := .ok ⟨launch.subtaskId, agentId, [], 0, 0⟩
  dropped := false
  agent_eq := by
    rintro r ⟨⟩
    rfl

def fullLog : AuditLog where
  eventsSnapshot := id
  recent _ := ⟨[], rfl⟩

/-- An executor with the roles of a catalog. -/
def executorOf (catalog : RoleCatalog) : PlanExecutor where
  catalog := catalog
  auditLog := fullLog
  runRoot := "/run"
  toText _ := []
  texts := ⟨fun _ => [], fun _ => []⟩

/-- An attempt with a runner, in which every file exists. -/
def attemptWith (runner : SubtaskLaunch → RunnerFuture) : Attempt where
  order := listOrder
  join := JoinOrder.sequential PlanStep
  now _ := 0
  pathExists _ _ := true
  runner := runner
  scaffoldRunner := none

variable {attempt : Attempt}

theorem PlanExecutor.launches_singleton {executor : PlanExecutor} {plan : Plan} {s : Subtask}
    (hsub : (applyDepthToHops plan).subtasks = [s]) (hdeps : s.dependsOn = [])
    (hvalid : executor.preValidate [s] = .ok ()) :
  executor.Launches attempt plan [[s]]
  := by
  use topoBatches_singleton attempt.order hsub hdeps
  rw [hsub, hvalid]

theorem PlanExecutor.launch_mem_of_singleton {executor : PlanExecutor} {plan : Plan} {s : Subtask}
    (log : List SubtaskEvent) (hlaunches : executor.Launches attempt plan [[s]]) :
  .launch s ∈ (executor.executePlan attempt log plan).steps
  := by
  rw [launch_mem_steps_iff hlaunches, attempted]
  split_ifs <;> simp [attempted]

def writeSubtask : Subtask where
  id := "write"
  role := "writer"
  params := .obj []

def writePlan : Plan where
  subtasks := [writeSubtask]
  finalOutput := "report"

theorem launches_writePlan {catalog : RoleCatalog}
    (hvalid : (executorOf catalog).preValidate [writeSubtask] = .ok ()) :
  (executorOf catalog).Launches attempt writePlan [[writeSubtask]]
  := by
  apply PlanExecutor.launches_singleton _ _ hvalid
  · rfl
  · rfl

def reportPlan : Plan where
  subtasks :=
    [{ id := "write", role := "writer", params := .obj [],
       dependsOn := ["fetch"] },
      { id := "fetch", role := "writer", params := .obj [] }]
  finalOutput := "report"

theorem executePlan_disciplined_reportPlan :
  validatePlanStructure reportPlan writerCatalog = .ok ()
    ∧ (executorOf writerCatalog).Disciplined (attemptWith (idleRunner ⟨1⟩)) reportPlan
      ((executorOf writerCatalog).executePlan (attemptWith (idleRunner ⟨1⟩)) [] reportPlan)
  := by
  have hvalid : validatePlanStructure reportPlan writerCatalog = .ok () := by rfl
  exact ⟨hvalid, PlanExecutor.executePlan_disciplined _ _ _ hvalid⟩
