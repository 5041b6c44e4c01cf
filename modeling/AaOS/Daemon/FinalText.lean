import AaOS.Daemon.SubmitStream
import AaOS.Plan.Discipline

/-!
# The final text of a submitted goal

`handle_submit_streaming` of `agentd/src/server.rs` sends the response of the last subtask in the
list of the plan as the final text.  The planner accepts the subtasks in any order, so that other
subtasks may depend on the last one.
-/

def Plan.IsSink (plan : Plan) (id : SubtaskId) : Prop :=
  ∀ s ∈ plan.subtasks, s.id ≠ id → id ∉ s.dependsOn

/-- The final text is the response of a subtask on which no other one depends. -/
def PlanResult.EndsAtSink (E : Type) (result : PlanResult) : Prop :=
  ∃ s ∈ result.plan.subtasks, result.plan.IsSink s.id ∧ ∃ r, result.results.lookup s.id = some r
    ∧ (ExecTaskResult.finalText result : List (StreamFrame E)) = [.finalText r.response]

def PlanResult.SameResponse (result : PlanResult) (id id' : SubtaskId) : Prop :=
  (result.results.lookup id).map (·.response) = (result.results.lookup id').map (·.response)

namespace PlanExecutor

variable (executor : PlanExecutor) (attempt : Attempt) (log : List SubtaskEvent) {plan : Plan}
  {result : PlanResult}

theorem isSome_lookup_of_outcome (hwf : plan.WellFormed executor.catalog)
    (hok : (executor.executePlan attempt log plan).outcome = .ok result) :
  result.plan = plan ∧ ∀ s ∈ plan.subtasks, ∃ r, result.results.lookup s.id = some r
  := by
  obtain ⟨batches, hlaun⟩ : ∃ batches, executor.Launches attempt plan batches := by
    by_contra hnot
    obtain ⟨reason, heq⟩ := executePlan_of_not_launches log hnot
    rw [heq] at hok
    cases hok
  constructor
  · rw [executePlan_of_launches log hlaun] at hok
    apply (runBatches_eq_ok hok).2.1
  · intro s hs
    apply Option.isSome_iff_exists.mp
    apply (isSome_lookup_iff hwf hlaun hok s.id).mpr (List.mem_map_of_mem hs)

/-- The final text comes from the end of the plan exactly when nothing depends on the last subtask
in the list, or a subtask on which nothing depends has the same response. -/
theorem endsAtSink_iff (E : Type) (hvalid : validatePlanStructure plan executor.catalog = .ok ())
    (hok : (executor.executePlan attempt log plan).outcome = .ok result)
    (hresponses : ∀ id r, result.results.lookup id = some r → r.response ≠ []) :
  result.EndsAtSink E
    ↔ ∃ last ∈ plan.subtasks.getLast?, plan.IsSink last.id
      ∨ ∃ s ∈ plan.subtasks, plan.IsSink s.id ∧ result.SameResponse s.id last.id
  := by
  have hwf := validatePlanStructure_eq_ok.mp hvalid
  obtain ⟨rfl, hres⟩ := executor.isSome_lookup_of_outcome attempt log hwf hok
  have hlast := List.getLast?_eq_some_getLast hwf.subtasks_ne
  obtain ⟨r, hr⟩ := hres _ (List.getLast_mem hwf.subtasks_ne)
  generalize result.plan.subtasks.getLast hwf.subtasks_ne = last at hlast hr
  have hfinal : (ExecTaskResult.finalText result : List (StreamFrame E))
      = [.finalText r.response] := by
    simp [ExecTaskResult.finalText, hlast, hr, hresponses last.id r hr]
  have hsame : ∀ s r', result.results.lookup s = some r' →
      (result.SameResponse s last.id ↔ r'.response = r.response) := by
    intro s r' hr'
    simp [PlanResult.SameResponse, hr, hr']
  constructor
  · rintro ⟨s, hs, hsink, r', hr', heq⟩
    refine ⟨last, hlast, .inr ⟨s, hs, hsink, ?_⟩⟩
    rw [hfinal, List.cons.injEq, StreamFrame.finalText.injEq] at heq
    apply (hsame s.id r' hr').mpr heq.1.symm
  · rintro ⟨_, hmem, hcases⟩
    obtain rfl := Option.some.inj (hlast.symm.trans hmem)
    obtain hsink | ⟨s, hs, hsink, heq⟩ := hcases
    · exact ⟨_, List.mem_of_getLast? hlast, hsink, r, hr, hfinal⟩
    · obtain ⟨r', hr'⟩ := hres s hs
      refine ⟨s, hs, hsink, r', hr', ?_⟩
      rw [hfinal, (hsame s.id r' hr').mp heq]

/-- A runner whose agents respond with the identifiers of their subtasks. -/
def namingRunner (launch : SubtaskLaunch) : RunnerFuture where
  agent := some ⟨1⟩
  events := []
  result := .ok ⟨launch.subtaskId, ⟨1⟩, launch.subtaskId, 0, 0⟩
  dropped := false
  agent_eq := by
    rintro r ⟨⟩
    rfl

/-- The result of a plan whose subtasks have responded with their identifiers. -/
def namedResult (plan : Plan) (ids : List SubtaskId) : PlanResult where
  plan := plan
  results := ids.foldl (fun results id => AList.insert id ⟨id, ⟨1⟩, id, 0, 0⟩ results) ∅
  finalOutput := plan.finalOutput

/-- The same subtasks, each listed after those on which it depends. -/
def orderedPlan : Plan := { reportPlan with subtasks := reportPlan.subtasks.reverse }

/-- The order in which the subtasks are listed does not change how they are run. -/
theorem outcome_of_twoSubtasks {plan : Plan} (hplan : plan = reportPlan ∨ plan = orderedPlan) :
  ((executorOf writerCatalog).executePlan (attemptWith namingRunner) [] plan).outcome
    = .ok (namedResult plan ["fetch", "write"])
  := by
  have hsame : applyDepthToHops plan = plan := by
    obtain rfl | rfl := hplan <;> rfl
  have hlaun : (executorOf writerCatalog).Launches (attemptWith namingRunner) plan
      (reportPlan.subtasks.reverse.map ([·])) := by
    have hloop : topoBatches listOrder plan
        = topoLoop listOrder (SubtaskMap.collect plan.subtasks) [] [] := by
      obtain rfl | rfl := hplan <;> rfl
    refine ⟨?_, ?_⟩
    · rw [attemptWith, hsame, hloop]
      obtain rfl | rfl := hplan
      all_goals
        rw [topoLoop_of_ready rfl rfl, topoLoop_of_ready rfl rfl, topoLoop]
        rfl
    · obtain rfl | rfl := hplan <;> rfl
  rw [executePlan_of_launches [] hlaun]
  obtain rfl | rfl := hplan <;> rfl

/-- The subtask that writes is listed after the one that fetches, and its response is sent. -/
theorem endsAtSink_orderedPlan :
  validatePlanStructure orderedPlan writerCatalog = .ok ()
    ∧ ((executorOf writerCatalog).executePlan (attemptWith namingRunner) [] orderedPlan).outcome
      = .ok (namedResult orderedPlan ["fetch", "write"])
    ∧ (ExecTaskResult.finalText (namedResult orderedPlan ["fetch", "write"])
      : List (StreamFrame Unit)) = [.finalText "write"]
    ∧ (namedResult orderedPlan ["fetch", "write"]).EndsAtSink Unit
  := by
  have hvalid : validatePlanStructure orderedPlan writerCatalog = .ok () := rfl
  have hok := outcome_of_twoSubtasks (.inr rfl)
  refine ⟨hvalid, hok, rfl, (endsAtSink_iff _ _ _ Unit hvalid hok ?_).mpr ?_⟩
  · intro id r hr
    obtain ⟨rfl, rfl⟩ | ⟨-, hr⟩ := Table.lookup_insert_eq_some hr
    · decide
    · obtain ⟨rfl, rfl⟩ | ⟨-, hr⟩ := Table.lookup_insert_eq_some hr
      · decide
      · cases hr
  · refine ⟨_, rfl, .inl ?_⟩
    intro s hs hne
    obtain rfl | hs := List.mem_cons.mp hs
    · exact List.not_mem_nil
    · cases hne (congrArg Subtask.id (List.mem_singleton.mp hs))

/-- The subtask that fetches is listed after the one that writes, and its response is sent. -/
theorem not_endsAtSink_reportPlan :
  validatePlanStructure reportPlan writerCatalog = .ok ()
    ∧ ((executorOf writerCatalog).executePlan (attemptWith namingRunner) [] reportPlan).outcome
      = .ok (namedResult reportPlan ["fetch", "write"])
    ∧ (ExecTaskResult.finalText (namedResult reportPlan ["fetch", "write"])
      : List (StreamFrame Unit)) = [.finalText "fetch"]
    ∧ ¬ (namedResult reportPlan ["fetch", "write"]).EndsAtSink Unit
  := by
  have hsent : (ExecTaskResult.finalText (namedResult reportPlan ["fetch", "write"])
      : List (StreamFrame Unit)) = [.finalText "fetch"] := rfl
  refine ⟨rfl, outcome_of_twoSubtasks (.inl rfl), hsent, ?_⟩
  rintro ⟨s, hs, hsink, r, hr, hfinal⟩
  obtain rfl | hs := List.mem_cons.mp hs
  · obtain rfl : ⟨"write", ⟨1⟩, "write", 0, 0⟩ = r := Option.some.inj hr
    rw [hsent, List.cons.injEq, StreamFrame.finalText.injEq] at hfinal
    cases hfinal.1
  · obtain rfl := List.mem_singleton.mp hs
    apply hsink _ List.mem_cons_self (by decide)
    apply List.mem_singleton_self

end PlanExecutor
