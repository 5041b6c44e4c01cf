import Mathlib.Algebra.Order.BigOperators.Group.List
import AaOS.Plan.Batches
import AaOS.Plan.Depth
import AaOS.Plan.Events

/-!
# Hop budgets

`spawn_subtask` of `aaos-runtime/src/plan/executor.rs` refuses a subtask whose hop budget, lowered
by its depth, is used up.  The depth is the number of the batch, as long as no path of dependencies
has 2^32 edges or more.
-/

open List

/-- Launch a subtask, unless its role is unknown or its hop budget is used up. -/
def spawnSubtask {ρ : Type} (catalog : RoleCatalog)
    (launch : Role → Subtask → List SubtaskEvent × Except ExecutorError ρ) (s : Subtask) :
    List SubtaskEvent × Except ExecutorError ρ :=
  match catalog.lookup s.role with
  | none => ([], .error (.correctable ("unknown role: " ++ s.role)))
  | some role =>
    if s.ttl.bind (·.maxHops) = some 0 then
      ([.ttlExpired s.id "hops_exhausted"],
        .error (.correctable ("subtask '" ++ s.id ++ "' TTL hops exhausted")))
    else
      let launched := launch role s
      (.started s.id s.role :: launched.1, launched.2)

/-! ### Refused subtasks -/

def RefusedForHops {ρ : Type} (catalog : RoleCatalog)
    (launch : Role → Subtask → List SubtaskEvent × Except ExecutorError ρ) (s : Subtask) : Prop :=
  spawnSubtask catalog launch s
    = ([.ttlExpired s.id "hops_exhausted"],
      .error (.correctable ("subtask '" ++ s.id ++ "' TTL hops exhausted")))

variable {s : Subtask}

theorem refusedForHops_iff {ρ : Type} {catalog : RoleCatalog}
    {launch : Role → Subtask → List SubtaskEvent × Except ExecutorError ρ}
    (hrole : (catalog.lookup s.role).isSome = true) :
  RefusedForHops catalog launch s ↔ s.ttl.bind (·.maxHops) = some 0
  := by
  obtain ⟨role, hrole⟩ := Option.isSome_iff_exists.mp hrole
  unfold RefusedForHops spawnSubtask
  simp only [hrole]
  by_cases hops : s.ttl.bind (·.maxHops) = some 0
  · rw [if_pos hops]
    simp only [hops]
  · rw [if_neg hops]
    simp [hops]

theorem saturatingSub_eq_zero {a b : UInt32} :
  saturatingSub a b = 0 ↔ a.toNat ≤ b.toNat
  := by
  unfold saturatingSub
  by_cases hle : a ≤ b
  · rw [if_pos hle]
    simpa using UInt32.le_iff_toNat_le.mp hle
  · have hlt : b.toNat < a.toNat := Nat.lt_of_not_le hle
    rw [if_neg hle, ← UInt32.toNat_inj, UInt32.toNat_sub_of_le a b (Nat.le_of_lt hlt),
      UInt32.toNat_zero]
    omega

theorem getElem?_applyDepthToHops {plan : Plan} {i : Nat} {adjusted : Subtask}
    (hs : plan.subtasks[i]? = some s)
    (hadj : (applyDepthToHops plan).subtasks[i]? = some adjusted) :
  adjusted.role = s.role
    ∧ adjusted.ttl.bind (·.maxHops)
      = (s.ttl.bind (·.maxHops)).map (saturatingSub · ((depths plan.subtasks).getD i 0))
  := by
  simp only [applyDepthToHops, getElem?_map, getElem?_zipIdx, hs, Option.map_some,
    Nat.zero_add, Option.some.injEq] at hadj
  subst hadj
  cases s.ttl with
  | none => simp
  | some ttl => simp

/-! ### Hop budgets and batches -/

/-- The depth of a subtask is `k`, the length of the longest path of dependencies that ends at it;
and it is refused when its hop budget is at most `k`. -/
structure HopsFollow (catalog : RoleCatalog) (plan : Plan) (i : Nat) (s : Subtask) (k : Nat) :
    Prop where
  depth : depthAt (depths plan.subtasks) i = k
  longest : IsGreatest {n | PathTo plan.Depends n s.id} k
  refused : ∀ (ttl : TaskTtl) (hops : UInt32), s.ttl = some ttl → ttl.maxHops = some hops →
    ∀ adjusted, (applyDepthToHops plan).subtasks[i]? = some adjusted →
    ∀ (ρ : Type) (launch : Role → Subtask → List SubtaskEvent × Except ExecutorError ρ),
      RefusedForHops catalog launch adjusted ↔ hops.toNat ≤ k

def Plan.HopsFollowBatches (order : IterationOrder) (catalog : RoleCatalog) (plan : Plan) : Prop :=
  ∃ batches, topoBatches order plan = .ok batches
    ∧ ∀ (i : Nat) (s : Subtask), plan.subtasks[i]? = some s →
      ∃ k, InBatch batches k s.id ∧ HopsFollow catalog plan i s k

variable {catalog : RoleCatalog} {plan : Plan}

theorem Layered.length_le {subtasks : List Subtask} {batches : List (List Subtask)}
    (hlayer : Layered subtasks batches) :
  batches.length ≤ subtasks.length
  := by
  rw [← hlayer.perm.length_eq, length_flatten, ← length_map (f := length)]
  apply length_le_sum_of_one_le
  intro n hn
  obtain ⟨batch, hbatch, rfl⟩ := mem_map.mp hn
  apply length_pos_of_ne_nil (hlayer.ne_nil batch hbatch)

variable {n : Nat}

theorem Plan.HopsFollowBatches.lt_of_pathTo {order : IterationOrder}
    (hfol : plan.HopsFollowBatches order catalog) (hs : s ∈ plan.subtasks)
    (hpath : PathTo plan.Depends n s.id) :
  n < 2 ^ 32
  := by
  obtain ⟨batches, hok, hfol⟩ := hfol
  obtain ⟨i, hi⟩ := mem_iff_getElem?.mp hs
  obtain ⟨k, -, hk⟩ := hfol i s hi
  apply Nat.lt_of_le_of_lt (hk.longest.2 hpath)
  rw [← hk.depth]
  apply UInt32.toNat_lt

theorem Plan.WellFormed.hopsFollowBatches (hwf : plan.WellFormed catalog) (order : IterationOrder)
    (hacyclic : Acyclic plan.Depends)
    (hsmall : ∀ s ∈ plan.subtasks, ∀ n, PathTo plan.Depends n s.id → n < 2 ^ 32) :
  plan.HopsFollowBatches order catalog
  := by
  obtain ⟨batches, hok⟩ := hwf.exists_topoBatches_iff.mpr hacyclic
  have hlayers := hwf.layered hok
  have hlayer := hlayers.layering hwf
  use batches, hok
  intro i s hs
  have hmem := mem_of_getElem? hs
  have hin : InBatch batches (batchIndex batches s.id) s.id := by
    apply inBatch_batchIndex
    apply mem_map_of_mem (hlayers.perm.mem_iff.mpr hmem)
  have hdepth : depthAt (depths plan.subtasks) i = batchIndex batches s.id := by
    apply depthAt_depths hwf hlayer _ _ hs
    · intro t ht
      apply hsmall t ht _ (hlayer.isGreatest t.id).1
    · intro t ht
      obtain ⟨k, batch, hbatch, hin⟩ := hlayers.exists_batch ht
      obtain ⟨hk, -⟩ := List.getElem?_eq_some_iff.mp hbatch
      rw [((hlayers.mem_batch_iff hwf hbatch).mp hin).2]
      apply Nat.le_trans (Nat.le_of_lt hk) hlayers.length_le
  use batchIndex batches s.id, hin
  constructor
  case depth => apply hdepth
  case longest => apply hlayer.isGreatest
  case refused =>
    intro ttl hops httl hmax adjusted hadj ρ launch
    obtain ⟨hrole, hbud⟩ := getElem?_applyDepthToHops hs hadj
    rw [refusedForHops_iff (hrole ▸ hwf.role s hmem), hbud, httl, Option.bind_some, hmax,
      Option.map_some, Option.some.injEq, saturatingSub_eq_zero, ← hdepth]
    rfl

/-- Depths and hop budgets follow the batches exactly when no path of dependencies has 2^32 edges.
-/
theorem hopsFollowBatches_iff (order : IterationOrder)
    (hvalid : validatePlanStructure plan catalog = .ok ()) (hacyclic : Acyclic plan.Depends) :
  plan.HopsFollowBatches order catalog
    ↔ ∀ s ∈ plan.subtasks, ∀ n, PathTo plan.Depends n s.id → n < 2 ^ 32
  := by
  have hwf := validatePlanStructure_eq_ok.mp hvalid
  constructor
  · intro hfol s hs n hpath
    apply hfol.lt_of_pathTo hs hpath
  · apply hwf.hopsFollowBatches order hacyclic

/-- The subtask that depends on the other one is refused. -/
theorem hopsFollowBatches_fetchWritePlan :
  fetchWritePlan.HopsFollowBatches listOrder writerCatalog
    ∧ (applyDepthToHops fetchWritePlan).subtasks.map
      (fun s => spawnSubtask writerCatalog (fun _ _ => ([], Except.ok ())) s)
      = [([.ttlExpired "write" "hops_exhausted"],
          .error (.correctable "subtask 'write' TTL hops exhausted")),
        ([.started "fetch" "writer"], .ok ())]
  := by
  have hvalid : validatePlanStructure fetchWritePlan writerCatalog = .ok () := by rfl
  refine ⟨?_, rfl⟩
  rw [hopsFollowBatches_iff listOrder hvalid fetchWritePlan_layering.acyclic]
  intro s _ n hpath
  have hle := fetchWritePlan_layering.le_of_pathTo hpath
  split_ifs at hle <;> omega

/-! ### A long chain -/

def chainId (i : Nat) : SubtaskId := List.replicate i 'a'

def chainSubtask (i : Nat) : Subtask where
  id := chainId i
  role := "writer"
  dependsOn := if i = 0 then [] else [chainId (i - 1)]

def chainPlan (n : Nat) : Plan where
  subtasks := (List.range n).map chainSubtask
  finalOutput := "report"

theorem chainId_injective :
  Function.Injective chainId
  := by
  intro i j hij
  simpa [chainId] using congrArg length hij

theorem chainPlan_wellFormed (hn : 0 < n) :
  (chainPlan n).WellFormed writerCatalog
  := by
  have hids : (chainPlan n).ids = (range n).map chainId := by
    simp [Plan.ids, chainPlan, chainSubtask]
  constructor
  case finalOutput_ne => simp [chainPlan]
  case subtasks_ne => simpa [chainPlan] using Nat.ne_of_gt hn
  case nodup =>
    rw [hids]
    apply List.Nodup.map chainId_injective nodup_range
  case role =>
    intro s hs
    obtain ⟨i, -, rfl⟩ := mem_map.mp hs
    rfl
  case known =>
    intro s hs d hd
    obtain ⟨i, hi, rfl⟩ := mem_map.mp hs
    simp only [chainSubtask] at hd
    split_ifs at hd with hzero
    · cases hd
    · rw [mem_singleton.mp hd, hids]
      apply mem_map_of_mem
      rw [mem_range] at hi ⊢
      omega

theorem chainPlan_depends {d id : SubtaskId} :
  (chainPlan n).Depends d id ↔ ∃ i, i + 1 < n ∧ d = chainId i ∧ id = chainId (i + 1)
  := by
  simp only [Plan.Depends, chainPlan, mem_map, mem_range]
  constructor
  · rintro ⟨_, ⟨i, hi, rfl⟩, rfl, hd⟩
    simp only [chainSubtask] at hd
    split_ifs at hd with hzero
    · cases hd
    · obtain ⟨j, rfl⟩ := Nat.exists_eq_succ_of_ne_zero hzero
      use j, hi, mem_singleton.mp hd
      rfl
  · rintro ⟨i, hi, rfl, rfl⟩
    use chainSubtask (i + 1), ⟨i + 1, hi, rfl⟩, rfl
    apply mem_singleton_self

theorem chainPlan_acyclic (n : Nat) :
  Acyclic (chainPlan n).Depends
  := by
  apply acyclic_of_lt length
  intro d id hedge
  obtain ⟨i, -, rfl, rfl⟩ := chainPlan_depends.mp hedge
  simp [chainId]

theorem chainPlan_pathTo {i : Nat} (hi : i < n) :
  PathTo (chainPlan n).Depends i (chainId i)
  := by
  induction i with
  | zero => apply PathTo.start
  | succ i ih =>
    apply PathTo.step (ih (by omega))
    apply chainPlan_depends.mpr ⟨i, hi, rfl, rfl⟩

theorem chainPlan_not_hopsFollowBatches (hn : 2 ^ 32 < n) (order : IterationOrder) :
  ¬ (chainPlan n).HopsFollowBatches order writerCatalog
  := by
  intro hfol
  have hmem : chainSubtask (2 ^ 32) ∈ (chainPlan n).subtasks := mem_map_of_mem (mem_range.mpr hn)
  apply Nat.lt_irrefl (2 ^ 32)
  apply hfol.lt_of_pathTo hmem (chainPlan_pathTo hn)

/-- The depths of a plan with a chain of 2^32 + 1 subtasks are not the numbers of the
batches. -/
theorem not_hopsFollowBatches_chainPlan :
  validatePlanStructure (chainPlan (2 ^ 32 + 1)) writerCatalog = .ok ()
    ∧ Acyclic (chainPlan (2 ^ 32 + 1)).Depends
    ∧ ¬ (chainPlan (2 ^ 32 + 1)).HopsFollowBatches listOrder writerCatalog
  := by
  refine ⟨?_, chainPlan_acyclic _, ?_⟩
  · apply validatePlanStructure_eq_ok.mpr (chainPlan_wellFormed (Nat.succ_pos _))
  · apply chainPlan_not_hopsFollowBatches (Nat.lt_succ_self _)
