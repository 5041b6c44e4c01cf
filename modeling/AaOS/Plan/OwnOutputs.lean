import AaOS.Plan.Signals

/-!
# Outputs of an attempt

That a declared output is there does not tell who wrote it: the files of a run outlive an attempt,
and other subtasks write files at the same time.  The files are given by those that exist at the
launch of a subtask and by what happens to them until its outputs are looked for.
-/

/-! ### Files -/

/-- What is done to a file; a file may be written or removed by a subtask, or by someone else. -/
structure FileEvent where
  author : Option SubtaskId
  path : Text
  written : Bool

/-- The files when a subtask is launched, and what is done to files until its outputs are looked
for. -/
structure RunFiles where
  atLaunch : SubtaskId → Text → Bool
  events : SubtaskId → List FileEvent

namespace RunFiles

variable (files : RunFiles)

/-- The file exists when the outputs of the subtask are looked for. -/
def existsAfter (id : SubtaskId) (path : Text) : Bool :=
  (files.events id).foldl
    (fun present event => if event.path = path then event.written else present)
    (files.atLaunch id path)

/-- The subtask has created or written the file since it was launched. -/
def WrittenBy (id : SubtaskId) (path : Text) : Prop := ⟨some id, path, true⟩ ∈ files.events id

/-- What was done to the file last, if anything was. -/
def lastEvent (id : SubtaskId) (path : Text) : Option FileEvent :=
  (files.events id).foldl (fun last event => if event.path = path then some event else last) none

/-- Nothing was done to a file that was not there at the launch, or it was removed last. -/
def Missing (id : SubtaskId) (path : Text) : Prop :=
  match files.lastEvent id path with
  | none => files.atLaunch id path = false
  | some event => event.written = false

/-- Nothing was done to a file that was there at the launch, or someone else wrote it last. -/
def Inherited (id : SubtaskId) (path : Text) : Prop :=
  match files.lastEvent id path with
  | none => files.atLaunch id path = true
  | some event => event.written = true ∧ event.author ≠ some id

variable {files} {id : SubtaskId} {path : Text}

theorem existsAfter_eq :
  files.existsAfter id path
    = (files.lastEvent id path).elim (files.atLaunch id path) FileEvent.written
  := by
  unfold existsAfter lastEvent
  induction files.events id using List.reverseRecOn with
  | nil => rfl
  | append_singleton events event ih =>
    rw [List.foldl_append, List.foldl_append, List.foldl_cons, List.foldl_cons, ih]
    split_ifs <;> rfl

theorem mem_events_of_lastEvent {event : FileEvent} (hlast : files.lastEvent id path = some event) :
  event ∈ files.events id ∧ event.path = path
  := by
  unfold lastEvent at hlast
  revert hlast
  induction files.events id using List.reverseRecOn with
  | nil =>
    intro hlast
    cases hlast
  | append_singleton events other ih =>
    intro hlast
    rw [List.foldl_append, List.foldl_cons, List.foldl_nil] at hlast
    split_ifs at hlast with hpath
    · cases hlast
      simp [hpath]
    · obtain ⟨hmem, hpath⟩ := ih hlast
      exact ⟨List.mem_append_left _ hmem, hpath⟩

theorem existsAfter_iff :
  files.existsAfter id path = true ↔ ¬ files.Missing id path
  := by
  rw [existsAfter_eq, Missing]
  cases files.lastEvent id path <;> simp

/-- A file that is there and was not inherited was written by the subtask. -/
theorem writtenBy_of_not_inherited (hexist : files.existsAfter id path = true)
    (hown : ¬ files.Inherited id path) :
  files.WrittenBy id path
  := by
  rw [existsAfter_eq] at hexist
  unfold Inherited at hown
  cases hlast : files.lastEvent id path with
  | none =>
    rw [hlast] at hexist hown
    cases hown hexist
  | some event =>
    rw [hlast] at hexist hown
    obtain ⟨hmem, hpath⟩ := mem_events_of_lastEvent hlast
    obtain ⟨author, path', written⟩ := event
    obtain rfl : written = true := hexist
    obtain rfl : path' = path := hpath
    obtain rfl : author = some id := by simpa using hown
    apply hmem

end RunFiles

/-- The attempt in which the files are found as they are. -/
def Attempt.withFiles (attempt : Attempt) (files : RunFiles) : Attempt :=
  { attempt with pathExists := files.existsAfter }

namespace PlanExecutor

variable {executor : PlanExecutor} {attempt : Attempt} {files : RunFiles}

def declaredOutputs (executor : PlanExecutor) (role : Role) (s : Subtask) : List Text :=
  (role.capabilities.filterMap (declaredOutput (executor.subs.apply s.params))).map Prod.snd

theorem checkDeclaredOutputsExist_cases
    {s : Subtask} {role : Role} (hrole : executor.catalog.lookup s.role = some role)
    (hreq : role.requireDeclaredOutput = true) (pathExists : Text → Bool) :
  (checkDeclaredOutputsExist executor.catalog pathExists s executor.subs = .present
      ∧ ∀ path ∈ executor.declaredOutputs role s, pathExists path = true)
    ∨ ∃ reason, checkDeclaredOutputsExist executor.catalog pathExists s executor.subs
        = .missingFatal reason
      ∧ ¬ ∀ path ∈ executor.declaredOutputs role s, pathExists path = true
  := by
  unfold checkDeclaredOutputsExist declaredOutputs
  rw [hrole, List.forall_mem_map]
  dsimp only
  split
  case h_1 hfind =>
    left
    rw [List.find?_eq_none] at hfind
    exact ⟨rfl, fun output hmem => by simpa using hfind output hmem⟩
  case h_2 name path hfind =>
    right
    rw [if_pos hreq]
    refine ⟨_, rfl, ?_⟩
    intro hall
    have hexist := hall (name, path) (List.mem_of_find?_eq_some hfind)
    have hmis := List.find?_some hfind
    simp [hexist] at hmis

theorem fails_eq_false_iff
    {s : Subtask} {role : Role} (hrole : executor.catalog.lookup s.role = some role)
    (hreq : role.requireDeclaredOutput = true) :
  executor.fails attempt s = false
    ↔ (∃ r, (executor.spawn attempt s).2 = .ok r)
      ∧ ∀ path ∈ executor.declaredOutputs role s, attempt.pathExists s.id path = true
  := by
  unfold fails verdict
  rcases (executor.spawn attempt s).2 with e | r
  · simp [examine, Verdict.failure]
  · rw [examine]
    obtain ⟨heq, hall⟩ | ⟨reason, heq, hnot⟩ :=
      checkDeclaredOutputsExist_cases hrole hreq (attempt.pathExists s.id)
    · rw [heq]
      exact iff_of_true rfl ⟨⟨r, rfl⟩, hall⟩
    · rw [heq]
      apply iff_of_false Bool.noConfusion
      rintro ⟨-, hall⟩
      contradiction

/-- A run in whose directory the report was there before, and nothing is done to it. -/
def leftoverFiles : RunFiles where
  atLaunch _ path := path = "/data/report"
  events _ := []

/-- The report was there before and is written by someone else and then by the subtask. -/
def ownFiles : RunFiles where
  atLaunch _ path := path = "/data/report"
  events id := [⟨none, "/data/report", true⟩, ⟨some id, "/data/report", true⟩]

/-- A launched subtask is reported as a success only if it has written its outputs exactly when it
ends without a result, or one of them is missing, or it has written each of them that it has also
inherited. -/
theorem declared_outputs_written_iff (executor : PlanExecutor) (attempt : Attempt)
    (files : RunFiles) {log : List SubtaskEvent} {plan : Plan} {s : Subtask} {role : Role}
    (hlaunch : .launch s ∈ (executor.executePlan (attempt.withFiles files) log plan).steps)
    (hrole : executor.catalog.lookup s.role = some role)
    (hrequire : role.requireDeclaredOutput = true) :
  ((∃ agentId, .record (.completed agentId s.id true)
        ∈ (executor.executePlan (attempt.withFiles files) log plan).steps) →
      ∀ path ∈ executor.declaredOutputs role s, files.WrittenBy s.id path)
    ↔ (¬ ∃ r, (executor.spawn attempt s).2 = .ok r)
      ∨ (∃ path ∈ executor.declaredOutputs role s, files.Missing s.id path)
      ∨ ∀ path ∈ executor.declaredOutputs role s, files.Inherited s.id path →
        files.WrittenBy s.id path
  := by
  rw [completed_mem_iff hlaunch, Bool.not_true, fails_eq_false_iff hrole hrequire]
  change ((∃ r, (executor.spawn attempt s).2 = .ok r)
    ∧ ∀ path ∈ executor.declaredOutputs role s, files.existsAfter s.id path = true) → _ ↔ _
  constructor
  · intro hwrite
    rw [or_iff_not_imp_left, not_not, or_iff_not_imp_left]
    intro hr hpres path hmem _
    apply hwrite ⟨hr, fun other hother => ?_⟩ path hmem
    rw [RunFiles.existsAfter_iff]
    intro hmis
    exact hpres ⟨other, hother, hmis⟩
  · rintro (hnone | ⟨path, hmem, hmis⟩ | hinh) ⟨hr, hexist⟩
    · contradiction
    · cases RunFiles.existsAfter_iff.mp (hexist path hmem) hmis
    · intro path hmem
      by_cases hown : files.Inherited s.id path
      · exact hinh path hmem hown
      · exact RunFiles.writtenBy_of_not_inherited (hexist path hmem) hown

/-- A subtask that writes over an output that was there before. -/
theorem declared_outputs_written_iff_timedPlan :
  ∃ role, strictCatalog.lookup timedSubtask.role = some role
    ∧ ((∃ agentId, .record (.completed agentId timedSubtask.id true)
        ∈ ((executorOf strictCatalog).executePlan
          ((attemptWith (idleRunner ⟨1⟩)).withFiles ownFiles) [] timedPlan).steps) →
      ∀ path ∈ (executorOf strictCatalog).declaredOutputs role timedSubtask,
        ownFiles.WrittenBy timedSubtask.id path)
  := by
  refine ⟨_, rfl, ?_⟩
  apply (declared_outputs_written_iff (executorOf strictCatalog) (attemptWith (idleRunner ⟨1⟩))
    ownFiles (launch_mem_of_singleton [] (launches_timedPlan _)) rfl rfl).mpr
  right; right
  intro path hpath _
  obtain rfl : path = "/data/report" := List.mem_singleton.mp hpath
  apply List.mem_cons_of_mem _ (List.mem_singleton.mpr rfl)

/-- An output that was there before counts as its own, although the subtask writes nothing. -/
theorem declared_output_of_earlier_attempt :
  ∃ role, strictCatalog.lookup timedSubtask.role = some role ∧ role.requireDeclaredOutput = true
    ∧ (∃ agentId, .record (.completed agentId timedSubtask.id true)
      ∈ ((executorOf strictCatalog).executePlan
        ((attemptWith (idleRunner ⟨1⟩)).withFiles leftoverFiles) [] timedPlan).steps)
    ∧ "/data/report".toList ∈ (executorOf strictCatalog).declaredOutputs role timedSubtask
    ∧ ¬ leftoverFiles.WrittenBy timedSubtask.id "/data/report".toList
  := by
  refine ⟨_, rfl, rfl, ?_, List.mem_singleton.mpr rfl, List.not_mem_nil⟩
  rw [completed_mem_iff (launch_mem_of_singleton [] (launches_timedPlan _))]
  rfl

end PlanExecutor
