import AaOS.Plan.Replanning

/-!
# Tiers of models

The tier of a subtask says which model of the ladder of its role is used.  In a run, the
tier of a subtask is the number of the escalations that were recorded for it since it
entered the plan, as long as the planner's model leaves the tiers of new subtasks at zero
and no ladder is longer than a tier can tell.
-/

open List PlanExecutor

/-! ### Escalations in a run -/

/-- Whether a subtask is in the plan, and how often it was escalated since it entered the plan. -/
structure Standing where
  inPlan : Bool := false
  escalations : Nat := 0

/-- The number of escalations that count when the subtask is in the next plan. -/
def Standing.entered (standing : Standing) : Nat :=
  if standing.inPlan then standing.escalations else 0

/-- What is known about a subtask after a step. -/
def Standing.after (id : SubtaskId) (standing : Standing) : RunStep → Standing
  | .executed plan _ => if id ∈ plan.ids then ⟨true, standing.entered⟩ else {}
  | .escalated id' .. =>
    if id' = id then { standing with escalations := standing.escalations + 1 } else standing
  | _ => standing

def standing (id : SubtaskId) (steps : List RunStep) : Standing :=
  steps.foldl (Standing.after id) {}

def lastPlan (steps : List RunStep) : Option Plan :=
  steps.foldl
    (fun last step =>
      match step with
      | .executed plan _ => some plan
      | _ => last)
    none

@[simp]
theorem standing_snoc (id : SubtaskId) (steps : List RunStep) (step : RunStep) :
  standing id (steps ++ [step]) = (standing id steps).after id step
  := by
  simp [standing]

@[simp]
theorem lastPlan_snoc (steps : List RunStep) (step : RunStep) :
  lastPlan (steps ++ [step])
    = match step with
      | .executed plan _ => some plan
      | _ => lastPlan steps
  := by
  simp [lastPlan]

namespace ReplanningExecutor

def TierStep (executor : ReplanningExecutor) (before : List RunStep) : RunStep → Prop
  | .executed plan execution =>
    ∀ s, .launch s ∈ execution.steps → s.currentModelTier.toNat
      = (standing s.id (before ++ [.executed plan execution])).escalations
  | .escalated id fromTier toTier fromModel toModel _ =>
    ∃ plan s role, lastPlan before = some plan ∧ s ∈ plan.subtasks ∧ s.id = id
      ∧ executor.catalog.lookup s.role = some role
      ∧ toTier.toNat = fromTier.toNat + 1
      ∧ toTier.toNat ≤ (PlanExecutor.ladder role).length - 1
      ∧ (PlanExecutor.ladder role)[fromTier.toNat]? = some fromModel
      ∧ (PlanExecutor.ladder role)[toTier.toNat]? = some toModel
  | _ => True

/-- The tiers in a run are the escalations that were recorded. -/
abbrev TiersLogged (executor : ReplanningExecutor) (steps : List RunStep) : Prop :=
  EachAfter executor.TierStep steps

/-- The planner's model gives the lowest tier to the subtasks that are not in the plan
before. -/
def FreshStep (executor : ReplanningExecutor) (before : List RunStep) : RunStep → Prop
  | .planned answer =>
    ∀ plan, executor.planner.Accepts executor.catalog answer plan → ∀ s ∈ plan.subtasks,
      (∀ old, lastPlan before = some old → s.id ∉ old.ids) → s.currentModelTier = 0
  | _ => True

/-- No ladder is longer than a tier can tell. -/
def ShortLadders (catalog : RoleCatalog) : Prop :=
  ∀ name role, catalog.lookup name = some role → (PlanExecutor.ladder role).length ≤ 256

/-! ### The next tier -/

theorem decideEscalation_lt {f : FailedSubtask} {configured : List EscalationSignal}
    {ladderLen : Nat} {tier : UInt8} {signal : EscalationSignal}
    (hsig : decideEscalation f configured ladderLen tier = some signal) :
  tier.toNat < ladderLen - 1
  := by
  unfold decideEscalation at hsig
  split_ifs at hsig with hone hlast
  apply Nat.lt_of_not_le hlast

theorem toNat_nextTier {ladder : List Text} {tier : UInt8} (hlen : ladder.length ≤ 256)
    (hlt : tier.toNat < ladder.length - 1) :
  (nextTier ladder tier).toNat = tier.toNat + 1
  := by
  have hnext : (tier + 1).toNat = tier.toNat + 1 := by
    rw [UInt8.toNat_add]
    simp
    omega
  have hlast : ((ladder.length - 1).toUInt8).toNat = ladder.length - 1 := by
    simp
    omega
  have hle : tier + 1 ≤ (ladder.length - 1).toUInt8 := by
    rw [UInt8.le_iff_toNat_le, hnext, hlast]
    omega
  have hmin : nextTier ladder tier = tier + 1 := if_pos hle
  rw [hmin, hnext]

example : nextTier (List.replicate 257 []) 0 = 0 := by decide +kernel

/-! ### Failures -/

section Failures

variable {executor : PlanExecutor} {attempt : Attempt} {plan : Plan}

variable {s : Subtask}

theorem failedId_eq_some {verdict : PlanExecutor.Verdict} {id : SubtaskId} {agentId : AgentId}
    {role : Text} (heq : verdict.failedId s = some (id, agentId, role)) :
  s.id = id ∧ s.role = role
  := by
  cases verdict with
  | succeeded r missing => cases heq
  | failed agentId reason =>
    cases heq
    exact ⟨rfl, rfl⟩

theorem failedIds_sublist (executor : PlanExecutor) (attempt : Attempt) (batch : List Subtask) :
  ((batch.filterMap (fun s => (executor.verdict attempt s).failedId s)).map (·.1)).Sublist
    (batch.map (·.id))
  := by
  induction batch with
  | nil => simp
  | cons s batch ih =>
    rw [filterMap_cons, map_cons]
    cases hfail : (executor.verdict attempt s).failedId s with
    | none => apply ih.cons
    | some failed =>
      obtain ⟨id, agentId, role⟩ := failed
      obtain ⟨rfl, -⟩ := failedId_eq_some hfail
      apply ih.cons_cons

theorem exists_of_mem_batches {batches : List (List Subtask)}
    (hlaun : executor.Launches attempt plan batches) (hwf : plan.WellFormed executor.catalog)
    (hs : s ∈ batches.flatten) :
  ∃ ttl, { s with ttl := ttl } ∈ plan.subtasks
  := by
  apply exists_of_mem_applyDepthToHops
  rw [← values_collected hwf, ← hlaun.layered.perm.mem_iff]
  apply hs

theorem failures_of_executePlan
    {log : List SubtaskEvent} (hwf : plan.WellFormed executor.catalog)
    {reason : Text} {failures : List FailedSubtask}
    (hout : (executor.executePlan attempt log plan).outcome
      = .error (.correctable reason failures)) :
  (failures.map (·.subtaskId)).Nodup
    ∧ ∀ f ∈ failures, ∃ s ∈ plan.subtasks, s.id = f.subtaskId ∧ s.role = f.role
  := by
  by_cases hlaun : ∃ batches, executor.Launches attempt plan batches
  · obtain ⟨batches, hlaun⟩ := hlaun
    rw [executePlan_of_launches log hlaun] at hout
    obtain ⟨earlier, batch, later, reason', rfl, -, -, heq⟩ := runBatches_eq_error hout
    obtain ⟨-, rfl⟩ := ExecutorError.correctable.inj heq
    constructor
    · rw [failures, map_map]
      have hnodup := hlaun.nodup
      rw [flatten_append, flatten_cons, map_append, map_append] at hnodup
      apply List.Nodup.sublist (failedIds_sublist _ _ _)
      apply hnodup.of_append_right.of_append_left
    · intro f hf
      obtain ⟨⟨id, agentId, role⟩, hfail, rfl⟩ := mem_map.mp hf
      obtain ⟨s, hs, hfail⟩ := mem_filterMap.mp hfail
      obtain ⟨rfl, rfl⟩ := failedId_eq_some hfail
      have hmem : s ∈ (earlier ++ batch :: later).flatten := by
        apply mem_flatten_of_mem _ hs
        simp
      obtain ⟨ttl, hs⟩ := exists_of_mem_batches hlaun hwf hmem
      exact ⟨_, hs, rfl, rfl⟩
  · obtain ⟨reason', heq⟩ := executePlan_of_not_launches log hlaun
    rw [heq] at hout
    cases hout
    simp

theorem exists_of_launch {log : List SubtaskEvent} (hwf : plan.WellFormed executor.catalog)
    (hlaun : .launch s ∈ (executor.executePlan attempt log plan).steps) :
  ∃ ttl, { s with ttl := ttl } ∈ plan.subtasks
  := by
  obtain ⟨batches, hlaunc⟩ := exists_launches_of_launch hlaun
  rw [launch_mem_steps_iff hlaunc] at hlaun
  obtain ⟨rest, hrest⟩ := attempted_append (executor.batchFails attempt) batches
  apply exists_of_mem_batches hlaunc hwf
  rw [← hrest, flatten_append]
  apply mem_append_left _ hlaun

end Failures

/-! ### The tiers of a plan -/

section Plans

variable {plan : Plan} {s : Subtask}

theorem currentTier_eq (hnodup : plan.ids.Nodup) (hs : s ∈ plan.subtasks) :
  currentTier plan s.id = s.currentModelTier
  := by
  cases hfind : plan.subtasks.find? (·.id = s.id) with
  | none =>
    have hnone := find?_eq_none.mp hfind s hs
    simp at hnone
  | some t =>
    have hid : t.id = s.id := by simpa using find?_some hfind
    obtain rfl := inj_on_of_nodup_map hnodup (mem_of_find?_eq_some hfind) hs hid
    rw [currentTier, hfind]
    rfl

theorem lookup_tiersOf (plan : Plan) (id : SubtaskId) :
  (∃ s ∈ plan.subtasks, s.id = id ∧ (tiersOf plan).lookup id = some s.currentModelTier)
    ∨ (id ∉ plan.ids ∧ (tiersOf plan).lookup id = none)
  := by
  unfold tiersOf Plan.ids
  induction plan.subtasks using reverseRecOn with
  | nil => exact .inr ⟨by simp, rfl⟩
  | append_singleton subtasks s ih =>
    rw [foldl_append, foldl_cons, foldl_nil, Table.lookup_insert']
    by_cases hid : id = s.id
    · subst hid
      rw [if_pos rfl]
      exact .inl ⟨s, by simp, rfl, rfl⟩
    · rw [if_neg hid]
      obtain ⟨t, ht, hid', hlook⟩ | ⟨hnot, hlook⟩ := ih
      · exact .inl ⟨t, mem_append_left _ ht, hid', hlook⟩
      · exact .inr ⟨by simpa [hid] using hnot, hlook⟩

end Plans

/-! ### The escalations of a round -/

section Escalations

variable {executor : ReplanningExecutor} {plan : Plan} {base : List RunStep}

/-- The subtasks that were escalated have the next tier, and one more escalation each. -/
structure Escalated (executor : ReplanningExecutor) (plan : Plan) (base : List RunStep)
    (failures : List FailedSubtask) (bumps : Table SubtaskId UInt8) (events : List RunStep) :
    Prop where
  logged : executor.TiersLogged (base ++ events)
  last : lastPlan (base ++ events) = some plan
  kept : ∀ id, bumps.lookup id = none → standing id (base ++ events) = standing id base
  bumped : ∀ id tier, bumps.lookup id = some tier → id ∈ failures.map (·.subtaskId)
    ∧ tier.toNat = (currentTier plan id).toNat + 1
    ∧ standing id (base ++ events)
      = ⟨(standing id base).inPlan, (standing id base).escalations + 1⟩

theorem getElem?_eq_some_getD {ladder : List Text} {i : Nat} (hlt : i < ladder.length) :
  ladder[i]? = some (ladder.getD i [])
  := by
  rw [getD_eq_getElem?_getD, getElem?_eq_getElem hlt, Option.getD_some]

theorem tierStep_escalated (hlad : ShortLadders executor.catalog) {steps : List RunStep}
    (hlast : lastPlan steps = some plan) {s : Subtask} (hs : s ∈ plan.subtasks) {role : Role}
    (hrole : executor.catalog.lookup s.role = some role) {tier : UInt8}
    (hlt : tier.toNat < (ladder role).length - 1) (reason : Text) :
  executor.TierStep steps
    (.escalated s.id tier (nextTier (ladder role) tier)
      ((ladder role).getD tier.toNat [])
      ((ladder role).getD (nextTier (ladder role) tier).toNat [])
      reason)
  := by
  have hnext := toNat_nextTier (hlad s.role role hrole) hlt
  refine ⟨plan, s, role, hlast, hs, rfl, hrole, hnext, ?_, ?_, ?_⟩
  · omega
  all_goals
    apply getElem?_eq_some_getD
    omega

theorem Escalated.snoc {failures : List FailedSubtask} {bumps : Table SubtaskId UInt8}
    {events : List RunStep} (hesc : executor.Escalated plan base failures bumps events)
    {f : FailedSubtask} (hnew : f.subtaskId ∉ failures.map (·.subtaskId)) {newTier : UInt8}
    (hnext : newTier.toNat = (currentTier plan f.subtaskId).toNat + 1)
    {fromTier : UInt8} {fromModel toModel reason : Text}
    (hstep : executor.TierStep (base ++ events)
      (.escalated f.subtaskId fromTier newTier fromModel toModel reason)) :
  executor.Escalated plan base (failures ++ [f]) (AList.insert f.subtaskId newTier bumps)
    (events ++ [.escalated f.subtaskId fromTier newTier fromModel toModel reason])
  := by
  have hnone : bumps.lookup f.subtaskId = none := by
    cases hlook : bumps.lookup f.subtaskId with
    | none => rfl
    | some tier => exact absurd (hesc.bumped _ tier hlook).1 hnew
  constructor
  case logged =>
    rw [← append_assoc]
    apply hesc.logged.snoc hstep
  case last =>
    rw [← append_assoc, lastPlan_snoc]
    apply hesc.last
  case kept =>
    intro id hlook
    rw [Table.lookup_insert'] at hlook
    split_ifs at hlook with hid
    rw [← append_assoc, standing_snoc, Standing.after, if_neg (Ne.symm hid)]
    apply hesc.kept id hlook
  case bumped =>
    intro id tier hlook
    rw [Table.lookup_insert'] at hlook
    rw [← append_assoc, standing_snoc, Standing.after, map_append]
    split_ifs at hlook with hid
    · cases hlook
      subst hid
      rw [if_pos rfl, hesc.kept _ hnone]
      exact ⟨by simp, hnext, rfl⟩
    · obtain ⟨hmem, hrest⟩ := hesc.bumped id tier hlook
      rw [if_neg (Ne.symm hid)]
      exact ⟨mem_append_left _ hmem, hrest⟩

theorem escalated_escalations (hlad : ShortLadders executor.catalog)
    (hlog : executor.TiersLogged base) (hlast : lastPlan base = some plan)
    {failures : List FailedSubtask} (hnodup : (failures.map (·.subtaskId)).Nodup)
    (hfail : ∀ f ∈ failures, ∃ s ∈ plan.subtasks, s.id = f.subtaskId ∧ s.role = f.role) :
  executor.Escalated plan base failures (executor.escalations plan failures).1
    (executor.escalations plan failures).2
  := by
  unfold escalations
  induction failures using reverseRecOn with
  | nil =>
    constructor
    case logged => simpa using hlog
    case last => simpa using hlast
    case kept => simp
    case bumped => simp
  | append_singleton failures f ih =>
    rw [map_append, nodup_append] at hnodup
    specialize ih hnodup.1 (fun g hg => hfail g (mem_append_left _ hg))
    rw [foldl_append, foldl_cons, foldl_nil]
    obtain heq | ⟨role, signal, hrole, hsig, heq⟩ := executor.escalate_eq_or plan
      (failures.foldl (executor.escalate plan) (∅, [])) f
    · rw [heq]
      constructor
      case logged => apply ih.logged
      case last => apply ih.last
      case kept => apply ih.kept
      case bumped =>
        intro id tier hlook
        obtain ⟨hid, hrest⟩ := ih.bumped id tier hlook
        rw [map_append]
        exact ⟨mem_append_left _ hid, hrest⟩
    · obtain ⟨s, hs, hid, hsrole⟩ := hfail f (by simp)
      rw [heq]
      have hnew : f.subtaskId ∉ failures.map (·.subtaskId) := by
        intro hmem
        apply hnodup.2.2 _ hmem f.subtaskId (by simp) rfl
      have hlt := decideEscalation_lt hsig
      apply ih.snoc hnew
      · apply toNat_nextTier (hlad f.role role hrole) hlt
      · rw [← hid]
        rw [← hsrole] at hrole
        rw [← hid] at hlt
        apply tierStep_escalated hlad ih.last hs hrole hlt

end Escalations

/-! ### Rounds -/

section Rounds

variable {executor : ReplanningExecutor} {plan newPlan : Plan} {before : List RunStep}

/-- The steps are as expected, and the tiers of the next plan are the numbers of escalations. -/
structure Ready (executor : ReplanningExecutor) (before : List RunStep) (plan : Plan) : Prop where
  logged : executor.TiersLogged before
  wellFormed : plan.WellFormed executor.catalog
  tiers : ∀ s ∈ plan.subtasks, s.currentModelTier.toNat = (standing s.id before).entered

theorem Ready.executed (hready : executor.Ready before plan) (attempt : Attempt)
    (log : List SubtaskEvent) :
  executor.TiersLogged (before ++ [.executed plan (executor.executePlan attempt log plan)])
  := by
  apply hready.logged.snoc
  intro s hlaun
  obtain ⟨ttl, hs⟩ := exists_of_launch hready.wellFormed hlaun
  have hid : s.id ∈ plan.ids := mem_map.mpr ⟨_, hs, rfl⟩
  rw [standing_snoc, Standing.after, if_pos hid]
  apply hready.tiers _ hs

variable {bumps : Table SubtaskId UInt8}

theorem mem_carryTiersForward {s : Subtask}
    (hs : s ∈ (carryTiersForward newPlan plan bumps).subtasks) :
  ∃ tier, { s with currentModelTier := tier } ∈ newPlan.subtasks
    ∧ (bumps.lookup s.id = some s.currentModelTier
      ∨ bumps.lookup s.id = none
        ∧ ((tiersOf plan).lookup s.id = some s.currentModelTier
          ∨ (tiersOf plan).lookup s.id = none ∧ s.currentModelTier = tier))
  := by
  obtain ⟨t, ht, rfl⟩ := mem_map.mp hs
  use t.currentModelTier
  cases hbum : bumps.lookup t.id with
  | some tier => exact ⟨ht, .inl hbum⟩
  | none =>
    cases hprev : (tiersOf plan).lookup t.id with
    | some tier =>
      simp only [hprev]
      exact ⟨ht, .inr ⟨hbum, .inl trivial⟩⟩
    | none =>
      simp only [hprev]
      exact ⟨ht, .inr ⟨hbum, .inr ⟨trivial, trivial⟩⟩⟩

theorem ids_carryTiersForward (newPlan plan : Plan) (bumps : Table SubtaskId UInt8) :
  (carryTiersForward newPlan plan bumps).ids = newPlan.ids
  := by
  unfold Plan.ids carryTiersForward
  rw [map_map]
  apply map_congr_left
  intro s _
  simp only [Function.comp_apply]
  split
  · rfl
  · split <;> rfl

theorem wellFormed_carryTiersForward {catalog : RoleCatalog} (hwf : newPlan.WellFormed catalog) :
  (carryTiersForward newPlan plan bumps).WellFormed catalog
  := by
  constructor
  case finalOutput_ne => apply hwf.finalOutput_ne
  case subtasks_ne =>
    intro hnil
    apply hwf.subtasks_ne
    apply map_eq_nil_iff.mp hnil
  case nodup =>
    rw [ids_carryTiersForward]
    apply hwf.nodup
  case role =>
    intro s hs
    obtain ⟨tier, hs, -⟩ := mem_carryTiersForward hs
    apply hwf.role _ hs
  case known =>
    intro s hs d hd
    obtain ⟨tier, hs, -⟩ := mem_carryTiersForward hs
    rw [ids_carryTiersForward]
    apply hwf.known _ hs d hd

def roundSteps (before : List RunStep) (plan : Plan) (execution : Executed) (reason : Text) :
    List RunStep :=
  before ++ [.executed plan execution] ++ [.replanned reason]

theorem standing_roundSteps (id : SubtaskId) (execution : Executed) (reason : Text) :
  standing id (roundSteps before plan execution reason)
    = if id ∈ plan.ids then ⟨true, (standing id before).entered⟩ else {}
  := by
  rw [roundSteps, standing_snoc, standing_snoc]
  rfl

theorem Ready.replanned (hready : executor.Ready before plan) {execution : Executed} {reason : Text}
    {failures : List FailedSubtask} {events : List RunStep}
    (hesc : executor.Escalated plan (roundSteps before plan execution reason) failures
      bumps events)
    (hfail : ∀ f ∈ failures, ∃ s ∈ plan.subtasks, s.id = f.subtaskId ∧ s.role = f.role)
    {answer : LlmResult} (hacc : executor.planner.Accepts executor.catalog answer newPlan)
    (hfresh : executor.FreshStep (roundSteps before plan execution reason ++ events)
      (.planned answer)) :
  executor.Ready (roundSteps before plan execution reason ++ events ++ [.planned answer])
    (carryTiersForward newPlan plan bumps)
  := by
  constructor
  case logged =>
    apply hesc.logged.snoc
    trivial
  case wellFormed =>
    apply wellFormed_carryTiersForward hacc.wellFormed
  case tiers =>
    intro s hs
    have hplan : standing s.id (roundSteps before plan execution reason ++ events
          ++ [.planned answer])
        = standing s.id (roundSteps before plan execution reason ++ events) := by
      rw [standing_snoc]
      rfl
    rw [hplan]
    obtain ⟨tier, ht, hbum | ⟨hkept, hprev | ⟨hnew, htier⟩⟩⟩ := mem_carryTiersForward hs
    · obtain ⟨hmem, hnext, hstand⟩ := hesc.bumped s.id _ hbum
      obtain ⟨f, hf, hfid⟩ := mem_map.mp hmem
      obtain ⟨t, ht, htid, -⟩ := hfail f hf
      have hid : s.id = t.id := by rw [htid, hfid]
      have hmem : s.id ∈ plan.ids := by
        rw [hid]
        apply mem_map_of_mem ht
      rw [hstand, standing_roundSteps, if_pos hmem, hnext, hid,
        currentTier_eq hready.wellFormed.nodup ht, hready.tiers t ht]
      rfl
    · rw [hesc.kept s.id hkept, standing_roundSteps]
      obtain ⟨t, ht, htid, hlook⟩ | ⟨-, hlook⟩ := lookup_tiersOf plan s.id
      · rw [hprev] at hlook
        have hmem : s.id ∈ plan.ids := by
          rw [← htid]
          apply mem_map_of_mem ht
        rw [if_pos hmem, Option.some.inj hlook, hready.tiers t ht, htid]
        rfl
      · rw [hprev] at hlook
        cases hlook
    · rw [hesc.kept s.id hkept, standing_roundSteps]
      obtain ⟨t, -, -, hlook⟩ | ⟨hnot, -⟩ := lookup_tiersOf plan s.id
      · rw [hnew] at hlook
        cases hlook
      · have hzero : tier = 0 := by
          apply hfresh newPlan hacc _ ht
          intro old hold
          rw [hesc.last] at hold
          cases hold
          apply hnot
        rw [if_neg hnot, htier, hzero]
        rfl

theorem tiersLogged_loop {env : RunEnv} (hlad : ShortLadders executor.catalog)
    {remaining : Nat} {used : UInt32} {log : List SubtaskEvent}
    (hready : executor.Ready before plan)
    (hfresh : EachAfter executor.FreshStep
      (before ++ (executor.loop env remaining used log plan).steps)) :
  executor.TiersLogged (before ++ (executor.loop env remaining used log plan).steps)
  := by
  induction remaining using Nat.strong_induction_on generalizing used log plan before with
  | h remaining ih =>
    have hexec := hready.executed (env.attempts used.toNat) log
    obtain ⟨-, e, heq⟩ | ⟨result, count, heq⟩ | ⟨e, heq, -⟩
      | ⟨n, reason, failures, rfl, hout, heq⟩ := executor.loop_cases env remaining used log plan
    · rw [heq, append_nil]
      apply hready.logged
    · rw [heq, append_cons]
      apply hexec.snoc
      trivial
    · rw [heq]
      apply hexec
    · obtain ⟨hnodup, hfail⟩ := failures_of_executePlan hready.wellFormed hout
      generalize executor.executePlan (env.attempts used.toNat) log plan = execution
        at heq hexec
      have hround : executor.TiersLogged (roundSteps before plan execution reason) := by
        apply hexec.snoc
        trivial
      have hlast : lastPlan (roundSteps before plan execution reason) = some plan := by
        rw [roundSteps, lastPlan_snoc, lastPlan_snoc]
      have hesc := escalated_escalations hlad hround hlast hnodup hfail
      generalize executor.escalations plan failures = escalations at heq hesc
      have hsteps : ∀ rest, before ++ (Ran.after (.executed plan execution :: .replanned reason
          :: escalations.2) rest).steps
          = roundSteps before plan execution reason ++ escalations.2 ++ rest.steps := by
        intro rest
        simp [Ran.after, roundSteps]
      rw [heq, hsteps] at hfresh ⊢
      obtain ⟨-, ending, hcall, -⟩ | ⟨-, e, hcall⟩ | ⟨newPlan, hacc, hcall⟩ :=
        executor.callPlanner_cases env (used.toNat + 1) (carryTiersForward · plan escalations.1)
          (executor.loop env n (used + 1) (log ++ execution.steps.filterMap PlanStep.recorded))
      · rw [hcall]
        apply hesc.logged.snoc
        trivial
      · rw [hcall]
        apply hesc.logged.snoc
        trivial
      · rw [hcall, Ran.after, singleton_append] at hfresh ⊢
        have hnext := hready.replanned hesc hfail hacc hfresh.next
        rw [append_cons] at hfresh ⊢
        apply ih n (Nat.lt_succ_self n) hnext hfresh

end Rounds

/-- In a run whose planner gives new subtasks the lowest tier, with short ladders, the tiers are the
numbers of escalations. -/
theorem tiersLogged_run (executor : ReplanningExecutor) (env : RunEnv) (log : List SubtaskEvent)
    (hladders : ShortLadders executor.catalog)
    (hfresh : EachAfter executor.FreshStep (executor.run env log).steps) :
  executor.TiersLogged (executor.run env log).steps
  := by
  unfold run at hfresh ⊢
  cases hdir : env.createDirAll with
  | error message => apply EachAfter.nil
  | ok =>
    simp only [hdir] at hfresh ⊢
    have hplan : executor.TiersLogged ([] ++ [.planned (env.answers 0)]) := by
      apply (EachAfter.nil (P := executor.TierStep)).snoc
      trivial
    obtain ⟨-, ending, hcall, -⟩ | ⟨-, e, hcall⟩ | ⟨plan, hacc, hcall⟩ :=
      executor.callPlanner_cases env 0 id (executor.loop env executor.maxReplans.toNat 0 log)
    · rw [hcall]
      apply hplan
    · rw [hcall]
      apply hplan
    · rw [hcall, Ran.after] at hfresh ⊢
      apply tiersLogged_loop hladders _ hfresh
      constructor
      case logged => apply hplan
      case wellFormed => apply hacc.wellFormed
      case tiers =>
        intro s hs
        have hzero : s.currentModelTier = 0 := by
          apply hfresh [] (.planned (env.answers 0)) _ rfl plan hacc s hs
          intro old hold
          cases hold
        rw [hzero]
        rfl

end ReplanningExecutor

/-! ### A run with escalations -/

def ladderCatalog : RoleCatalog :=
  AList.insert "writer"
    { name := "writer", model := "small", parameters := ∅, capabilities := [],
      systemPrompt := [], messageTemplate := [], budget := ⟨0⟩,
      modelLadder := ["small", "large"] } ∅

def failingRunner (_ : SubtaskLaunch) : RunnerFuture where
  agent := none
  events := []
  result := .error (.ipc [])
  dropped := false
  agent_eq := by
    rintro r ⟨⟩

theorem shortLadders_ladderCatalog :
  ReplanningExecutor.ShortLadders ladderCatalog
  := by
  intro name role hlook
  rw [ladderCatalog, Table.lookup_insert'] at hlook
  split_ifs at hlook with hname
  · cases hlook
    decide
  · cases hlook

theorem freshStep_of_fromStr {executor : ReplanningExecutor}
    (hzero : ∀ json plan, executor.planner.fromStr json = .ok plan →
      ∀ s ∈ plan.subtasks, s.currentModelTier = 0) (steps : List RunStep) :
  EachAfter executor.FreshStep steps
  := by
  intro before step after _
  cases step with
  | planned answer =>
    intro plan hacc s hs _
    obtain ⟨json, parsed, hpar, rfl, -⟩ := hacc.exists_fromStr
    cases hfal : executor.planner.defaultTaskTtl with
    | none =>
      rw [hfal] at hs
      apply hzero json parsed hpar s hs
    | some fallback =>
      rw [hfal] at hs
      obtain ⟨t, ht, rfl⟩ := mem_map.mp hs
      apply hzero json parsed hpar t ht
  | _ => trivial

theorem tiersLogged_run_ladderCatalog :
  (replanningExecutor ladderCatalog (fun _ => .ok writePlan)).TiersLogged
    ((replanningExecutor ladderCatalog (fun _ => .ok writePlan)).run
      (answering "\x7b\x7d".toList failingRunner) []).steps
  := by
  apply ReplanningExecutor.tiersLogged_run
  · apply shortLadders_ladderCatalog
  · apply freshStep_of_fromStr
    rintro json plan ⟨⟩ s hs
    obtain rfl := List.mem_singleton.mp hs
    rfl

/-! ### A tier that no escalation led to -/

def raisedSubtask : Subtask := { writeSubtask with currentModelTier := 1 }

def raisedPlan : Plan where
  subtasks := [raisedSubtask]
  finalOutput := "report"

/-- The subtask is launched with the model of the second tier, and no escalation is
recorded. -/
theorem not_tiersLogged_raisedPlan :
  ¬ (replanningExecutor ladderCatalog (fun _ => .ok raisedPlan)).TiersLogged
    ((replanningExecutor ladderCatalog (fun _ => .ok raisedPlan)).run
      (answering "\x7b\x7d".toList (idleRunner ⟨1⟩)) []).steps
  := by
  intro hlog
  obtain ⟨after, hsteps⟩ := ReplanningExecutor.exists_steps_loop
    (replanningExecutor ladderCatalog (fun _ => .ok raisedPlan))
    (answering "\x7b\x7d" (idleRunner ⟨1⟩)) 3 0 [] raisedPlan (Nat.zero_le _)
  have hrun : ((replanningExecutor ladderCatalog (fun _ => .ok raisedPlan)).run
      (answering "\x7b\x7d" (idleRunner ⟨1⟩)) []).steps
      = [.planned ((answering "\x7b\x7d" (idleRunner ⟨1⟩)).answers 0)]
        ++ ((replanningExecutor ladderCatalog (fun _ => .ok raisedPlan)).loop
          (answering "\x7b\x7d" (idleRunner ⟨1⟩)) 3 0 [] raisedPlan).steps := rfl
  rw [hrun, hsteps] at hlog
  have hlaunc : (executorOf ladderCatalog).Launches (attemptWith (idleRunner ⟨1⟩)) raisedPlan
      [[raisedSubtask]] := by
    apply PlanExecutor.launches_singleton <;> rfl
  have hlaun := PlanExecutor.launch_mem_of_singleton [] hlaunc
  have htier := hlog.next raisedSubtask hlaun
  cases htier
