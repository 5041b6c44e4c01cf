import AaOS.Lib.Machine
import AaOS.Lib.Ring
import AaOS.Plan.Structure

/-!
# The latencies of the models

`PerModelLatencyTracker` of `aaos-runtime/src/scheduler/per_model_latency.rs` knows the model of a
subtask by the identifier of the subtask.  `execute_agent_for_subtask` of `agentd/src/server.rs`
registers the model of its manifest, and every call of the language model records a sample.
Executions of other runs may have the same identifier.  A model has a ring of its latest samples.
-/

open List

/-- The latest samples of a model, in milliseconds. -/
structure ModelSampleRing where
  samples : List Nat := []
  next : Nat := 0
  full : Bool := false

namespace ModelSampleRing

/-- The number of samples that are kept. -/
def capacity : Nat := 256

/-- The ring with one more sample, in the place of the oldest when it is full. -/
def push (d : Nat) (ring : ModelSampleRing) : ModelSampleRing :=
  if ring.full then
    { ring with samples := ring.samples.set ring.next d, next := (ring.next + 1) % capacity }
  else
    let samples := ring.samples ++ [d]
    if samples.length = capacity then ⟨samples, 0, true⟩ else { ring with samples }

end ModelSampleRing

structure PerModelLatencyTracker where
  subtaskModels : Table SubtaskId Text := ∅
  samples : Table Text ModelSampleRing := ∅

namespace PerModelLatencyTracker

def register (subtaskId : SubtaskId) (model : Text) (tracker : PerModelLatencyTracker) :
    PerModelLatencyTracker :=
  { tracker with subtaskModels := tracker.subtaskModels.insert subtaskId model }

/-- Store a sample, and tell the model under which it is stored. -/
def record (subtaskId : SubtaskId) (elapsed : Nat) (tracker : PerModelLatencyTracker) :
    Option Text × PerModelLatencyTracker :=
  match tracker.subtaskModels.lookup subtaskId with
  | none => (none, tracker)
  | some model =>
    let ring := ((tracker.samples.lookup model).getD {}).push elapsed
    (some model, { tracker with samples := tracker.samples.insert model ring })

end PerModelLatencyTracker

/-- An execution of a subtask of a run, with the model of its manifest. -/
structure SubtaskExecution where
  run : Nat
  subtaskId : SubtaskId
  model : Text

/-- A sample of an execution, and the model under which it was stored. -/
structure LatencySample where
  execution : SubtaskExecution
  elapsed : Nat
  storedUnder : Option Text

/-- The tracker, the executions that were started, and the samples. -/
structure LatencyState where
  tracker : PerModelLatencyTracker := {}
  executions : List SubtaskExecution := []
  recorded : List LatencySample := []

/-- An execution is started, or a call of the execution at a position has ended. -/
inductive LatencyInput where
  | start (execution : SubtaskExecution)
  | called (position elapsed : Nat)

namespace LatencyState

/-- A call of an execution has ended. -/
def called (position elapsed : Nat) (s : LatencyState) : LatencyState :=
  match s.executions[position]? with
  | none => s
  | some execution =>
    let (storedUnder, tracker) := s.tracker.record execution.subtaskId elapsed
    { s with tracker, recorded := s.recorded ++ [⟨execution, elapsed, storedUnder⟩] }

/-- One step of the executions. -/
def step (s : LatencyState) : LatencyInput → LatencyState
  | .start execution =>
    { s with
      tracker := s.tracker.register execution.subtaskId execution.model
      executions := s.executions ++ [execution] }
  | .called position elapsed => s.called position elapsed

/-- Every sample is stored under the model of its execution. -/
def Attributed (s : LatencyState) : Prop :=
  ∀ sample ∈ s.recorded, sample.storedUnder = some sample.execution.model

/-- The model of the last execution with an identifier. -/
def lastModel (executions : List SubtaskExecution) (subtaskId : SubtaskId) : Option Text :=
  (executions.filter (·.subtaskId = subtaskId)).getLast?.map (·.model)

/-- When a call of an execution ends, the last execution with its identifier has its model. -/
def Undisturbed (s : LatencyState) : LatencyInput → Prop
  | .start _ => True
  | .called position _ => ∀ execution ∈ s.executions[position]?,
    lastModel s.executions execution.subtaskId = some execution.model

/-- The tracker knows the model of the last execution with an identifier. -/
def Registered (s : LatencyState) : Prop :=
  ∀ subtaskId, s.tracker.subtaskModels.lookup subtaskId = lastModel s.executions subtaskId

variable {s : LatencyState}

theorem lastModel_concat (executions : List SubtaskExecution) (execution : SubtaskExecution)
    (subtaskId : SubtaskId) :
  lastModel (executions ++ [execution]) subtaskId
    = if subtaskId = execution.subtaskId then some execution.model
      else lastModel executions subtaskId
  := by
  unfold lastModel
  rw [filter_append]
  by_cases heq : execution.subtaskId = subtaskId
  · simp [heq]
  · simp [heq, Ne.symm heq]

theorem record_fst (tracker : PerModelLatencyTracker) (subtaskId : SubtaskId) (elapsed : Nat) :
  (tracker.record subtaskId elapsed).1 = tracker.subtaskModels.lookup subtaskId
  := by
  unfold PerModelLatencyTracker.record
  split <;> simp_all

theorem subtaskModels_record (tracker : PerModelLatencyTracker) (subtaskId : SubtaskId)
    (elapsed : Nat) :
  (tracker.record subtaskId elapsed).2.subtaskModels = tracker.subtaskModels
  := by
  unfold PerModelLatencyTracker.record
  split <;> rfl

theorem registered_step (hreg : s.Registered) (input : LatencyInput) :
  (s.step input).Registered
  := by
  cases input with
  | start execution =>
    intro subtaskId
    rw [step, lastModel_concat, ← hreg]
    apply Table.lookup_insert'
  | called position elapsed =>
    rw [step, called]
    split
    · exact hreg
    · intro subtaskId
      dsimp only
      rw [subtaskModels_record]
      apply hreg

theorem attributed_step_iff (hreg : s.Registered) (hatt : s.Attributed) (input : LatencyInput) :
  (s.step input).Attributed ↔ s.Undisturbed input
  := by
  cases input with
  | start execution => exact ⟨fun _ => trivial, fun _ => hatt⟩
  | called position elapsed =>
    rw [step, called, Undisturbed]
    split
    case h_1 hnone =>
      rw [hnone]
      exact ⟨fun _ _ hmem => (by cases hmem), fun _ => hatt⟩
    case h_2 execution hexec =>
      simp only [Attributed, List.forall_mem_append, List.forall_mem_singleton, record_fst,
        hexec, Option.mem_some_iff, forall_eq', hreg execution.subtaskId]
      exact and_iff_right hatt

/-- In every interleaving, the samples are stored under the models of their executions exactly when
no call ends after an execution with its identifier and another model was started, unless one with
its own model followed. -/
theorem attributed_iff_undisturbed (inputs : List LatencyInput) :
  Machine.Always step Attributed {} inputs ↔ Machine.EveryStep step Undisturbed {} inputs
  := by
  apply Machine.always_iff_everyStep_of_invariant (I := Registered)
  · intro s input hreg
    apply registered_step hreg
  · intro s input hreg hatt
    apply attributed_step_iff hreg hatt
  · intro subtaskId
    rfl
  · rintro sample ⟨⟩

/-- Two runs have a subtask `a`, with different models; the first one is served after the second one
was registered. -/
theorem not_attributed_twoRuns :
  ¬ Machine.Always step Attributed {}
    [.start ⟨0, "a", "fast"⟩, .start ⟨1, "a", "strong"⟩, .called 0 5]
  := by
  intro halways
  have hatt := halways _ [] (List.append_nil _).symm _ (.head _)
  revert hatt
  decide

end LatencyState

/-! ### The ring of the latest samples -/

namespace ModelSampleRing

open Ring

/-- What a ring is after the given samples were pushed: from position `next` on, and around,
stand the latest ones, in the order in which they came. -/
structure Keeps (pushed : List Nat) (ring : ModelSampleRing) : Prop where
  next_lt : ring.next < capacity
  next_eq : ring.full = false → ring.next = 0
  full_iff : ring.full = true ↔ capacity ≤ pushed.length
  rotate_eq : ring.samples.rotate ring.next = pushed.rtake capacity

theorem keeps_empty :
  Keeps [] {}
  where
  next_lt := by decide
  next_eq _ := rfl
  full_iff := by decide
  rotate_eq := rfl

variable {pushed : List Nat} {ring : ModelSampleRing}

theorem capacity_pos :
  0 < capacity
  := by
  decide

theorem Keeps.push_of_full (h : Keeps pushed ring) (hfull : ring.full = true) (d : Nat) :
  Keeps (pushed ++ [d]) (ring.push d)
  := by
  have hle : capacity ≤ pushed.length := h.full_iff.mp hfull
  have hlen : ring.samples.length = capacity := by
    have hrot := congrArg length h.rotate_eq
    simp only [length_rotate, rtake, length_drop] at hrot
    omega
  have hnext : (ring.samples.set ring.next d).rotate ((ring.next + 1) % capacity)
      = (ring.samples.set ring.next d).rotate (ring.next + 1) := by
    have hset : (ring.samples.set ring.next d).length = capacity := by
      rw [length_set, hlen]
    rw [← hset, rotate_mod]
  rw [ModelSampleRing.push, if_pos hfull]
  constructor
  · apply Nat.mod_lt _ capacity_pos
  · simp [hfull]
  · simpa [hfull] using Nat.le_succ_of_le hle
  · rw [rtake_concat_of_le capacity_pos hle, ← h.rotate_eq]
    apply hnext.trans
    apply rotate_set_succ
    rw [hlen]
    exact h.next_lt

theorem Keeps.push_of_room (h : Keeps pushed ring) (hfull : ring.full = false) (d : Nat) :
  Keeps (pushed ++ [d]) (ring.push d)
  := by
  have hroom : pushed.length < capacity := by
    simpa [hfull] using h.full_iff
  have hnext := h.next_eq hfull
  have hsam : ring.samples = pushed := by
    simpa [hnext, rtake_of_length_le hroom.le] using h.rotate_eq
  have hlat : (pushed ++ [d]).rtake capacity = pushed ++ [d] := by
    apply rtake_of_length_le
    rw [length_append, length_singleton]
    exact hroom
  simp only [ModelSampleRing.push, hfull, hsam, length_append, length_singleton,
    Bool.false_eq_true, if_false]
  split
  · rename_i hlen
    constructor
    · exact capacity_pos
    · simp
    · simp [hlen]
    · rw [hlat, rotate_zero]
  · rename_i hlen
    constructor
    · exact h.next_lt
    · simp [hnext]
    · simp only [Bool.false_eq_true, length_append, length_singleton, false_iff]
      omega
    · rw [hlat, hnext, rotate_zero]

theorem Keeps.push (h : Keeps pushed ring) (d : Nat) :
  Keeps (pushed ++ [d]) (ring.push d)
  := by
  cases hfull : ring.full with
  | true => exact h.push_of_full hfull d
  | false => exact h.push_of_room hfull d

theorem keeps_foldl (pushed : List Nat) :
  Keeps pushed (pushed.foldl (fun ring d => ring.push d) {})
  := by
  induction pushed using reverseRecOn with
  | nil => exact keeps_empty
  | append_singleton pushed d ih =>
    rw [foldl_append]
    exact ih.push d

/-- The ring holds the latest samples, each of them once. -/
theorem samples_perm_latest (pushed : List Nat) :
  (pushed.foldl (fun ring d => ring.push d) ({} : ModelSampleRing)).samples.Perm
    (pushed.drop (pushed.length - min pushed.length capacity))
  := by
  have hlat := (keeps_foldl pushed).rotate_eq
  have hdrop : pushed.length - min pushed.length capacity = pushed.length - capacity := by
    omega
  rw [hdrop, ← List.rtake, ← hlat]
  exact (List.rotate_perm _ _).symm

end ModelSampleRing
