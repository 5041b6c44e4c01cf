import AaOS.Plan.Execution

/-!
# The steps of an execution

An execution attempts the batches up to the first one in which a subtask fails.  Its steps
are the steps of these batches: those of the launches and runs, joined in some order, and
then those of the examination of the results.
-/

open List

/-! ### The map of results -/

def insertStep (results : Table SubtaskId SubtaskResult) :
    PlanStep → Table SubtaskId SubtaskResult
  | .insert id r => AList.insert id r results
  | _ => results

def resultsAfter (steps : List PlanStep) : Table SubtaskId SubtaskResult :=
  steps.foldl insertStep ∅

theorem isSome_lookup_resultsAfter {steps : List PlanStep} {id : SubtaskId} :
  ((resultsAfter steps).lookup id).isSome = true ↔ ∃ r, .insert id r ∈ steps
  := by
  induction steps using reverseRecOn with
  | nil => simp [resultsAfter]
  | append_singleton steps step ih =>
    have hsnoc : resultsAfter (steps ++ [step]) = insertStep (resultsAfter steps) step := by
      simp [resultsAfter]
    rw [hsnoc]
    cases step with
    | launch s | record event => simpa [insertStep] using ih
    | insert id' r =>
      rw [insertStep, Table.lookup_insert']
      split_ifs with hid
      · subst hid
        simp only [Option.isSome_some, true_iff]
        use r
        simp
      · rw [ih]
        simp [hid]

/-! ### Batches -/

namespace PlanExecutor

variable (executor : PlanExecutor) (attempt : Attempt)

/-- What becomes of a subtask that is launched. -/
def verdict (s : Subtask) : Verdict :=
  executor.examine attempt s (executor.spawn attempt s).2

def Verdict.failure : Verdict → Option Text
  | succeeded .. => none
  | failed _ reason => some reason

/-- The steps of the examination of a result. -/
def Verdict.steps (s : Subtask) : Verdict → List PlanStep
  | succeeded r missing =>
    (missing.map fun path => PlanStep.record (.outputMissing r.agentId s.id path)).toList
      ++ [.record (.completed r.agentId s.id true), .insert s.id r]
  | failed agentId _ => [.record (.completed agentId s.id false)]

def Verdict.failedId (s : Subtask) : Verdict → Option (SubtaskId × AgentId × Text)
  | succeeded .. => none
  | failed agentId _ => some (s.id, agentId, s.role)

def fails (s : Subtask) : Bool := (executor.verdict attempt s).failure.isSome

def settleSteps (batch : List Subtask) : List PlanStep :=
  batch.flatMap (fun s => (executor.verdict attempt s).steps s)

def batchSteps (batch : List Subtask) : List PlanStep :=
  attempt.join.merge (batch.map (executor.spawnSteps attempt))
    ++ executor.settleSteps attempt batch

theorem settle_eq (settled : Settled) (s : Subtask) (verdict : Verdict) :
  settle settled s verdict
    = { results := (verdict.steps s).foldl insertStep settled.results
        steps := settled.steps ++ verdict.steps s
        firstFailure := settled.firstFailure.or verdict.failure
        failedIds := settled.failedIds ++ (verdict.failedId s).toList }
  := by
  cases verdict with
  | succeeded r missing => cases missing <;> simp [settle, Verdict.steps, Verdict.failure,
      Verdict.failedId, insertStep]
  | failed agentId reason => simp [settle, Verdict.steps, Verdict.failure, Verdict.failedId,
      insertStep]

theorem settleBatch_eq (results : Table SubtaskId SubtaskResult) (batch : List Subtask) :
  executor.settleBatch attempt results batch
    = { results := (executor.settleSteps attempt batch).foldl insertStep results
        steps := executor.settleSteps attempt batch
        firstFailure := batch.findSome? (fun s => (executor.verdict attempt s).failure)
        failedIds := batch.filterMap (fun s => (executor.verdict attempt s).failedId s) }
  := by
  induction batch using reverseRecOn with
  | nil => rfl
  | append_singleton batch s ih =>
    have hsnoc : executor.settleBatch attempt results (batch ++ [s])
        = settle (executor.settleBatch attempt results batch) s (executor.verdict attempt s) := by
      simp [settleBatch, verdict]
    have hfail : [s].filterMap (fun s => (executor.verdict attempt s).failedId s)
        = ((executor.verdict attempt s).failedId s).toList := by
      cases h : (executor.verdict attempt s).failedId s <;> simp [h]
    rw [hsnoc, ih, settle_eq]
    simp [settleSteps, flatMap_append, findSome?_append, findSome?_singleton, hfail]

def batchFails (batch : List Subtask) : Bool := batch.any (executor.fails attempt)

theorem isSome_firstFailure (batch : List Subtask) :
  (batch.findSome? (fun s => (executor.verdict attempt s).failure)).isSome
    = executor.batchFails attempt batch
  := by
  rw [Bool.eq_iff_iff, findSome?_isSome_iff, batchFails, any_eq_true]
  rfl

section Batch

variable {executor attempt} {batch : List Subtask} {step : PlanStep}

variable {s : Subtask}

theorem mem_await {future : RunnerFuture} {event : SubtaskEvent}
    (hevent : event ∈ (await attempt s future).1) :
  (∃ agentId e, (agentId, e) ∈ future.events ∧ event = .agent agentId e)
    ∨ event = .ttlExpired s.id "wall_clock_exceeded"
  := by
  have hrec : event ∈ future.events.map (fun p => SubtaskEvent.agent p.1 p.2) →
      ∃ agentId e, (agentId, e) ∈ future.events ∧ event = .agent agentId e := by
    intro hmem
    obtain ⟨⟨agentId, e⟩, he, rfl⟩ := mem_map.mp hmem
    exact ⟨agentId, e, he, rfl⟩
  unfold await at hevent
  split at hevent
  · exact .inl (hrec hevent)
  · split_ifs at hevent
    · obtain hevent | hevent := mem_append.mp hevent
      · exact .inl (hrec hevent)
      · exact .inr (mem_singleton.mp hevent)
    · exact .inl (hrec hevent)
  · exact .inl (hrec hevent)

/-- While a subtask is run, its start, the end of its time and what the agents do are recorded. -/
theorem mem_spawn {event : SubtaskEvent} (hevent : event ∈ (executor.spawn attempt s).1) :
  event = .started s.id s.role ∨ (∃ reason, event = .ttlExpired s.id reason)
    ∨ ∃ agentId e, event = .agent agentId e
  := by
  unfold spawn spawnSubtask at hevent
  split at hevent
  · cases hevent
  · split_ifs at hevent
    · exact .inr (.inl ⟨_, mem_singleton.mp hevent⟩)
    · obtain rfl | hevent := mem_cons.mp hevent
      · exact .inl rfl
      · unfold launch at hevent
        split at hevent
        · obtain ⟨agentId, e, -, rfl⟩ | rfl := mem_await hevent
          · exact .inr (.inr ⟨agentId, e, rfl⟩)
          · exact .inr (.inl ⟨_, rfl⟩)
        · cases hevent

theorem mem_merge :
  step ∈ attempt.join.merge (batch.map (executor.spawnSteps attempt))
    ↔ ∃ s ∈ batch, step ∈ executor.spawnSteps attempt s
  := by
  rw [(attempt.join.perm _).mem_iff, mem_flatten]
  simp

theorem mem_spawnSteps :
  step ∈ executor.spawnSteps attempt s
    ↔ step = .launch s ∨ ∃ event ∈ (executor.spawn attempt s).1, step = .record event
  := by
  simp [spawnSteps, eq_comm (a := step)]

theorem mem_batchSteps :
  step ∈ executor.batchSteps attempt batch
    ↔ ∃ s ∈ batch, step ∈ executor.spawnSteps attempt s
      ∨ step ∈ (executor.verdict attempt s).steps s
  := by
  simp only [batchSteps, mem_append, mem_merge, settleSteps, mem_flatMap]
  constructor
  · rintro (⟨s, hs, hstep⟩ | ⟨s, hs, hstep⟩)
    · exact ⟨s, hs, .inl hstep⟩
    · exact ⟨s, hs, .inr hstep⟩
  · rintro ⟨s, hs, hstep | hstep⟩
    · exact .inl ⟨s, hs, hstep⟩
    · exact .inr ⟨s, hs, hstep⟩

theorem foldl_insertStep_of_not_insert {steps : List PlanStep}
    {results : Table SubtaskId SubtaskResult} (hnot : ∀ id r, .insert id r ∉ steps) :
  steps.foldl insertStep results = results
  := by
  induction steps with
  | nil => rfl
  | cons step steps ih =>
    have hstep : insertStep results step = results := by
      cases step with
      | insert id r => exact absurd mem_cons_self (hnot id r)
      | _ => rfl
    rw [foldl_cons, hstep]
    apply ih
    intro id r hmem
    apply hnot id r (mem_cons_of_mem _ hmem)

theorem foldl_insertStep_batchSteps (results : Table SubtaskId SubtaskResult) :
  (executor.batchSteps attempt batch).foldl insertStep results
    = (executor.settleSteps attempt batch).foldl insertStep results
  := by
  have hjoin : (attempt.join.merge (batch.map (executor.spawnSteps attempt))).foldl
      insertStep results = results := by
    apply foldl_insertStep_of_not_insert
    intro id r hmem
    obtain ⟨s, -, hstep⟩ := mem_merge.mp hmem
    obtain hstep | ⟨event, -, hstep⟩ := mem_spawnSteps.mp hstep <;> cases hstep
  rw [batchSteps, foldl_append, hjoin]

end Batch

/-! ### Runs of batches -/

section Runs

variable {executor attempt} {log : List SubtaskEvent} {plan : Plan}
  {results : Table SubtaskId SubtaskResult} {steps : List PlanStep}
  {batch : List Subtask} {batches : List (List Subtask)}

theorem runBatches_cons_of_fails {reason : Text}
    (hfirst : batch.findSome? (fun s => (executor.verdict attempt s).failure) = some reason) :
  executor.runBatches attempt log plan results steps (batch :: batches)
    = ⟨steps ++ executor.batchSteps attempt batch,
        (executor.batchSteps attempt batch).foldl insertStep results,
        .error (.correctable reason (executor.failures
          (log ++ (steps ++ executor.batchSteps attempt batch).filterMap PlanStep.recorded)
          (batch.filterMap (fun s => (executor.verdict attempt s).failedId s))))⟩
  := by
  rw [runBatches, foldl_insertStep_batchSteps]
  simp [settleBatch_eq, hfirst, batchSteps]

theorem runBatches_cons_of_not_fails
    (hfirst : batch.findSome? (fun s => (executor.verdict attempt s).failure) = none) :
  executor.runBatches attempt log plan results steps (batch :: batches)
    = executor.runBatches attempt log plan
        ((executor.batchSteps attempt batch).foldl insertStep results)
        (steps ++ executor.batchSteps attempt batch) batches
  := by
  rw [runBatches, foldl_insertStep_batchSteps]
  simp [settleBatch_eq, hfirst, batchSteps]

theorem steps_runBatches :
  (executor.runBatches attempt log plan results steps batches).steps
    = steps ++ (attempted (executor.batchFails attempt) batches).flatMap
        (executor.batchSteps attempt)
  := by
  induction batches generalizing results steps with
  | nil => simp [runBatches, attempted]
  | cons batch batches ih =>
    have hsome := executor.isSome_firstFailure attempt batch
    rw [attempted]
    cases hfirst : batch.findSome? (fun s => (executor.verdict attempt s).failure) with
    | some reason =>
      rw [hfirst, Option.isSome_some] at hsome
      rw [runBatches_cons_of_fails hfirst, if_pos hsome.symm]
      simp
    | none =>
      rw [hfirst, Option.isSome_none] at hsome
      rw [runBatches_cons_of_not_fails hfirst, ih, ← hsome]
      simp

theorem results_runBatches (hres : results = resultsAfter steps) :
  (executor.runBatches attempt log plan results steps batches).results
    = resultsAfter (executor.runBatches attempt log plan results steps batches).steps
  := by
  induction batches generalizing results steps with
  | nil => apply hres
  | cons batch batches ih =>
    have hnext : (executor.batchSteps attempt batch).foldl insertStep results
        = resultsAfter (steps ++ executor.batchSteps attempt batch) := by
      rw [hres, resultsAfter, resultsAfter, foldl_append]
    cases hfirst : batch.findSome? (fun s => (executor.verdict attempt s).failure) with
    | some reason =>
      rw [runBatches_cons_of_fails hfirst]
      apply hnext
    | none =>
      rw [runBatches_cons_of_not_fails hfirst]
      apply ih hnext

theorem runBatches_eq_ok {result : PlanResult}
    (hok : (executor.runBatches attempt log plan results steps batches).outcome = .ok result) :
  (∀ batch ∈ batches, executor.batchFails attempt batch = false) ∧ result.plan = plan
    ∧ result.results = (executor.runBatches attempt log plan results steps batches).results
  := by
  induction batches generalizing results steps with
  | nil =>
    obtain rfl := Except.ok.inj hok
    simp [runBatches]
  | cons batch batches ih =>
    have hsome := executor.isSome_firstFailure attempt batch
    cases hfirst : batch.findSome? (fun s => (executor.verdict attempt s).failure) with
    | some reason =>
      rw [runBatches_cons_of_fails hfirst] at hok
      cases hok
    | none =>
      rw [runBatches_cons_of_not_fails hfirst] at hok ⊢
      obtain ⟨hrest, hres⟩ := ih hok
      refine ⟨?_, hres⟩
      intro b hb
      obtain rfl | hb := mem_cons.mp hb
      · rw [← hsome, hfirst, Option.isSome_none]
      · apply hrest b hb

theorem runBatches_eq_error {e : ExecutorError}
    (herror : (executor.runBatches attempt log plan results steps batches).outcome = .error e) :
  ∃ earlier batch later reason, batches = earlier ++ batch :: later
    ∧ (∀ b ∈ earlier, executor.batchFails attempt b = false)
    ∧ executor.batchFails attempt batch = true
    ∧ e = .correctable reason (executor.failures
        (log ++ (steps ++ (earlier ++ [batch]).flatMap
          (executor.batchSteps attempt)).filterMap PlanStep.recorded)
        (batch.filterMap (fun s => (executor.verdict attempt s).failedId s)))
  := by
  induction batches generalizing results steps with
  | nil => cases herror
  | cons batch batches ih =>
    have hsome := executor.isSome_firstFailure attempt batch
    cases hfirst : batch.findSome? (fun s => (executor.verdict attempt s).failure) with
    | some reason =>
      rw [runBatches_cons_of_fails hfirst] at herror
      rw [hfirst, Option.isSome_some] at hsome
      use [], batch, batches, reason, rfl
      refine ⟨by simp, hsome.symm, ?_⟩
      rw [← Except.error.inj herror]
      simp
    | none =>
      rw [runBatches_cons_of_not_fails hfirst] at herror
      rw [hfirst, Option.isSome_none] at hsome
      obtain ⟨earlier, last, later, reason, rfl, hear, hlast, rfl⟩ := ih herror
      use batch :: earlier, last, later, reason, rfl
      refine ⟨?_, hlast, ?_⟩
      · intro b hb
        obtain rfl | hb := mem_cons.mp hb
        · apply hsome.symm
        · apply hear b hb
      · simp

end Runs

/-! ### Executions -/

section Executions

variable {executor attempt} {plan : Plan} (log : List SubtaskEvent)

theorem preValidate_eq_error {subtasks : List Subtask} {e : ExecutorError}
    (herror : executor.preValidate subtasks = .error e) :
  ∃ reason, e = .correctable reason
  := by
  induction subtasks with
  | nil => cases herror
  | cons s subtasks ih =>
    rw [preValidate] at herror
    cases hrole : executor.catalog.lookup s.role with
    | none =>
      simp only [hrole, Except.error.injEq] at herror
      exact ⟨_, herror.symm⟩
    | some role =>
      simp only [hrole] at herror
      cases hparam : role.validateParams (executor.subs.apply s.params) with
      | error reason =>
        simp only [hparam, Except.error.injEq] at herror
        exact ⟨_, herror.symm⟩
      | ok =>
        simp only [hparam] at herror
        apply ih herror

def Launches (executor : PlanExecutor) (attempt : Attempt) (plan : Plan)
    (batches : List (List Subtask)) : Prop :=
  topoBatches attempt.order (applyDepthToHops plan) = .ok batches
    ∧ executor.preValidate (applyDepthToHops plan).subtasks = .ok ()

theorem executePlan_of_launches {batches : List (List Subtask)}
    (hlaun : executor.Launches attempt plan batches) :
  executor.executePlan attempt log plan = executor.runBatches attempt log plan ∅ [] batches
  := by
  simp only [executePlan, hlaun.1, hlaun.2]

theorem steps_executePlan {batches : List (List Subtask)}
    (hlaun : executor.Launches attempt plan batches) :
  (executor.executePlan attempt log plan).steps
    = (attempted (executor.batchFails attempt) batches).flatMap (executor.batchSteps attempt)
  := by
  rw [executePlan_of_launches log hlaun, steps_runBatches, nil_append]

theorem executePlan_of_not_launches (hnot : ¬ ∃ batches, executor.Launches attempt plan batches) :
  ∃ reason, executor.executePlan attempt log plan = ⟨[], ∅, .error (.correctable reason)⟩
  := by
  simp only [executePlan]
  cases htopo : topoBatches attempt.order (applyDepthToHops plan) with
  | error reason => exact ⟨reason, rfl⟩
  | ok batches =>
    cases hvalid : executor.preValidate (applyDepthToHops plan).subtasks with
    | error e =>
      obtain ⟨reason, rfl⟩ := preValidate_eq_error hvalid
      exact ⟨reason, rfl⟩
    | ok => exact absurd ⟨batches, htopo, hvalid⟩ hnot

theorem results_executePlan (plan : Plan) :
  (executor.executePlan attempt log plan).results
    = resultsAfter (executor.executePlan attempt log plan).steps
  := by
  by_cases hlaun : ∃ batches, executor.Launches attempt plan batches
  · obtain ⟨batches, hlaun⟩ := hlaun
    rw [executePlan_of_launches log hlaun]
    apply results_runBatches
    rfl
  · obtain ⟨reason, heq⟩ := executePlan_of_not_launches log hlaun
    rw [heq]
    rfl

end Executions

end PlanExecutor
