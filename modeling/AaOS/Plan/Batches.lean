import AaOS.Plan.Layers

/-!
# Batches of subtasks

`topo_batches` of `aaos-runtime/src/plan/mod.rs` repeatedly takes the subtasks whose dependencies
are done from a hash map, whose order is not specified.  The batches are the layers of the
subtasks, so they depend neither on this order nor on the order of the subtasks in the plan.
-/

open List

/-- A hash map of subtasks, each at its identifier. -/
structure SubtaskMap where
  values : List Subtask
  nodup : (values.map (·.id)).Nodup

/-- The order in which a hash map is iterated, as a rearrangement of its values. -/
structure IterationOrder where
  arrange : List Subtask → List Subtask
  perm : ∀ values, (arrange values).Perm values

namespace SubtaskMap

def get (pending : SubtaskMap) (id : SubtaskId) : Option Subtask :=
  pending.values.find? (fun s => s.id = id)

def containsKey (pending : SubtaskMap) (id : SubtaskId) : Bool :=
  pending.values.any (fun s => s.id = id)

def remove (pending : SubtaskMap) (id : SubtaskId) : SubtaskMap where
  values := pending.values.filter (fun s => s.id ≠ id)
  nodup := (List.filter_sublist.map _).nodup pending.nodup

def insert (pending : SubtaskMap) (s : Subtask) : SubtaskMap where
  values := (pending.remove s.id).values ++ [s]
  nodup := by
    rw [List.map_append, List.map_singleton, ← List.concat_eq_append]
    apply List.Nodup.concat
    · simp [remove]
    · apply (pending.remove s.id).nodup

def collect (subtasks : List Subtask) : SubtaskMap :=
  subtasks.foldl insert ⟨[], List.nodup_nil⟩

def ready (order : IterationOrder) (pending : SubtaskMap) (done : List SubtaskId) :
    List SubtaskId :=
  ((order.arrange pending.values).filter
    (fun s => s.dependsOn.all (fun d => done.contains d))).map (·.id)

/-- The map without the values at the given identifiers. -/
def removeAll (pending : SubtaskMap) (ids : List SubtaskId) : SubtaskMap :=
  ids.foldl remove pending

/-- The values at the given identifiers, sorted by their identifiers. -/
def batch (pending : SubtaskMap) (ids : List SubtaskId) : List Subtask :=
  (ids.filterMap pending.get).mergeSort (fun a b => decide (a.id ≤ b.id))

theorem values_removeAll (pending : SubtaskMap) (ids : List SubtaskId) :
  (pending.removeAll ids).values = pending.values.filter (fun s => s.id ∉ ids)
  := by
  induction ids generalizing pending with
  | nil => simp [removeAll]
  | cons id ids ih =>
    have hrem : pending.removeAll (id :: ids) = (pending.remove id).removeAll ids := rfl
    rw [hrem, ih, remove, filter_filter]
    congr 1
    ext s
    simp [Bool.and_comm]

variable {pending : SubtaskMap}

theorem get_of_mem {s : Subtask} (hs : s ∈ pending.values) :
  pending.get s.id = some s
  := by
  cases hget : pending.get s.id with
  | none =>
    rw [get, find?_eq_none] at hget
    simpa using hget s hs
  | some t =>
    have hid : t.id = s.id := by simpa using find?_some hget
    rw [inj_on_of_nodup_map pending.nodup (mem_of_find?_eq_some hget) hs hid]

variable {order : IterationOrder} {done : List SubtaskId}

theorem mem_ready {id : SubtaskId} :
  id ∈ pending.ready order done
    ↔ ∃ s ∈ pending.values, s.id = id ∧ ∀ d ∈ s.dependsOn, d ∈ done
  := by
  simp only [ready, mem_map, mem_filter, (order.perm pending.values).mem_iff,
    all_eq_true, contains_iff_mem]
  grind

theorem id_mem_ready {s : Subtask} (hs : s ∈ pending.values) :
  s.id ∈ pending.ready order done ↔ ∀ d ∈ s.dependsOn, d ∈ done
  := by
  rw [mem_ready]
  constructor
  · rintro ⟨t, ht, hid, hdone⟩
    obtain rfl := inj_on_of_nodup_map pending.nodup ht hs hid
    apply hdone
  · intro hdone
    use s

theorem batch_ready_perm (order : IterationOrder) (pending : SubtaskMap) (done : List SubtaskId) :
  (pending.batch (pending.ready order done)).Perm
    (pending.values.filter (fun s => s.id ∈ pending.ready order done))
  := by
  have hget : (pending.ready order done).filterMap pending.get
      = (order.arrange pending.values).filter
          (fun s => s.dependsOn.all (fun d => done.contains d)) := by
    rw [ready, filterMap_map]
    nth_rewrite 2 [← filterMap_some (l := filter _ _)]
    apply filterMap_congr
    intro s hs
    apply get_of_mem
    apply (order.perm pending.values).subset (mem_of_mem_filter hs)
  have hfil : pending.values.filter (fun s => s.id ∈ pending.ready order done)
      = pending.values.filter (fun s => s.dependsOn.all (fun d => done.contains d)) := by
    apply filter_congr
    intro s hs
    rw [Bool.eq_iff_iff, decide_eq_true_eq, id_mem_ready hs]
    simp
  rw [batch, hget, hfil]
  apply (mergeSort_perm _ _).trans
  apply (order.perm pending.values).filter

theorem batch_sorted (pending : SubtaskMap) (ids : List SubtaskId) :
  (pending.batch ids).Pairwise (fun a b => a.id ≤ b.id)
  := by
  have htrans : ∀ a b c : Subtask, decide (a.id ≤ b.id) = true → decide (b.id ≤ c.id) = true →
      decide (a.id ≤ c.id) = true := by
    intro a b c hab hbc
    rw [decide_eq_true_eq] at hab hbc ⊢
    apply le_trans hab hbc
  have htotal : ∀ a b : Subtask, (decide (a.id ≤ b.id) || decide (b.id ≤ a.id)) = true := by
    intro a b
    simpa using le_total a.id b.id
  simpa [batch] using pairwise_mergeSort htrans htotal (ids.filterMap pending.get)

theorem length_removeAll_ready_lt (hready : pending.ready order done ≠ []) :
  (pending.removeAll (pending.ready order done)).values.length < pending.values.length
  := by
  obtain ⟨id, hid⟩ := exists_mem_of_ne_nil _ hready
  obtain ⟨s, hs, rfl, -⟩ := mem_ready.mp hid
  rw [values_removeAll]
  apply length_filter_lt_length_iff_exists.mpr
  use s, hs
  simpa using hid

theorem values_collect {subtasks : List Subtask} (hnodup : (subtasks.map (·.id)).Nodup) :
  (collect subtasks).values = subtasks
  := by
  induction subtasks using reverseRecOn with
  | nil => rfl
  | append_singleton subtasks s ih =>
    rw [map_append, map_singleton, ← concat_eq_append, nodup_concat] at hnodup
    have hsnoc : collect (subtasks ++ [s]) = (collect subtasks).insert s := by
      simp [collect]
    have hkeep : subtasks.filter (fun t => t.id ≠ s.id) = subtasks := by
      rw [filter_eq_self]
      intro t ht
      simp only [ne_eq, decide_not, Bool.not_eq_eq_eq_not, Bool.not_true, decide_eq_false_iff_not]
      intro hid
      apply hnodup.1
      rw [← hid]
      apply mem_map_of_mem ht
    simp only [hsnoc, insert, remove, ih hnodup.2, hkeep]

end SubtaskMap

def topoLoop (order : IterationOrder) (pending : SubtaskMap) (done : List SubtaskId)
    (batches : List (List Subtask)) : Except Text (List (List Subtask)) :=
  if pending.values.isEmpty then .ok batches
  else
    let ready := pending.ready order done
    if ready = [] then
      .error ("dependency cycle among: "
        ++ ", ".toList.intercalate ((order.arrange pending.values).map (·.id)))
    else
      let batch := pending.batch ready
      topoLoop order (pending.removeAll ready) (done ++ batch.map (·.id)) (batches ++ [batch])
termination_by pending.values.length
decreasing_by
  apply SubtaskMap.length_removeAll_ready_lt
  assumption

/-- Sort the subtasks of a plan into batches. -/
def topoBatches (order : IterationOrder) (plan : Plan) : Except Text (List (List Subtask)) :=
  let pending := SubtaskMap.collect plan.subtasks
  match checkDependencies pending.containsKey plan.subtasks with
  | .error message => .error message
  | .ok () => topoLoop order pending [] []

/-! ### The loop -/

structure Progress (subtasks pending : List Subtask) (done : List SubtaskId)
    (batches : List (List Subtask)) : Prop where
  layers : Layered batches.flatten batches
  perm : (batches.flatten ++ pending).Perm subtasks
  mem_done : ∀ id, id ∈ done ↔ id ∈ batches.flatten.map (·.id)
  waiting : ∀ k, batches.length = k + 1 → ∀ s ∈ pending,
    ∃ d ∈ s.dependsOn, ∀ j < k, ¬ InBatch batches j d

section Loop

variable {order : IterationOrder} {subtasks : List Subtask} {pending : SubtaskMap}
  {done : List SubtaskId} {batches : List (List Subtask)}

theorem Progress.round (hprog : Progress subtasks pending.values done batches)
    (hready : pending.ready order done ≠ []) :
  Progress subtasks (pending.removeAll (pending.ready order done)).values
    (done ++ (pending.batch (pending.ready order done)).map (·.id))
    (batches ++ [pending.batch (pending.ready order done)])
  := by
  have hbatch := SubtaskMap.batch_ready_perm order pending done
  have hmem : ∀ s, s ∈ pending.batch (pending.ready order done)
      ↔ s ∈ pending.values ∧ ∀ d ∈ s.dependsOn, d ∈ done := by
    intro s
    rw [hbatch.mem_iff, mem_filter, decide_eq_true_eq]
    apply and_congr_right SubtaskMap.id_mem_ready
  constructor
  case layers =>
    apply hprog.layers.snoc
    · obtain ⟨id, hid⟩ := exists_mem_of_ne_nil _ hready
      obtain ⟨s, hs, rfl, hdone⟩ := SubtaskMap.mem_ready.mp hid
      apply ne_nil_of_mem ((hmem s).mpr ⟨hs, hdone⟩)
    · apply SubtaskMap.batch_sorted
    · intro s hs d hd
      rw [← hprog.mem_done]
      apply ((hmem s).mp hs).2 d hd
    · intro k hk s hs
      obtain ⟨hs, hdone⟩ := (hmem s).mp hs
      obtain ⟨d, hd, hlast⟩ := hprog.waiting k hk s hs
      obtain ⟨j, hj, hin⟩ := exists_inBatch ((hprog.mem_done d).mp (hdone d hd))
      obtain rfl : j = k := by
        by_contra hne
        apply hlast j (by omega) hin
      use d
  case perm =>
    rw [SubtaskMap.values_removeAll, flatten_concat, append_assoc]
    apply List.Perm.trans _ hprog.perm
    apply List.Perm.append_left
    have hsplit := filter_append_perm (fun s => decide (s.id ∈ pending.ready order done))
      pending.values
    simp only [decide_not]
    apply (hbatch.append_right _).trans hsplit
  case mem_done =>
    intro id
    simp [hprog.mem_done]
  case waiting =>
    intro k hk s hs
    obtain rfl : batches.length = k := by simpa using hk
    rw [SubtaskMap.values_removeAll, mem_filter, decide_eq_true_eq] at hs
    rw [SubtaskMap.id_mem_ready hs.1] at hs
    push Not at hs
    obtain ⟨-, d, hd, hdone⟩ := hs
    use d, hd
    rintro j hj ⟨batch, hget, hid⟩
    rw [getElem?_append_left hj] at hget
    apply hdone
    rw [hprog.mem_done]
    apply InBatch.mem_flatten ⟨batch, hget, hid⟩

theorem Progress.layered_of_topoLoop {result : List (List Subtask)}
    (hprog : Progress subtasks pending.values done batches)
    (hok : topoLoop order pending done batches = .ok result) :
  Layered subtasks result
  := by
  fun_induction topoLoop with
  | case1 pending done batches hempty =>
    cases hok
    have hperm := hprog.perm
    rw [List.isEmpty_iff.mp hempty, append_nil] at hperm
    exact { hprog.layers with perm := hperm }
  | case2 pending done batches hne ready hready => cases hok
  | case3 pending done batches hne ready hready batch ih =>
    apply ih (hprog.round hready) hok

end Loop

variable {catalog : RoleCatalog} {plan : Plan}

variable {order : IterationOrder} {batches : List (List Subtask)}

variable {pending : SubtaskMap} {done : List SubtaskId}

theorem Progress.ready_ne_nil (hwf : plan.WellFormed catalog) (hacyclic : Acyclic plan.Depends)
    (hprog : Progress plan.subtasks pending.values done batches) (hne : pending.values ≠ []) :
  pending.ready order done ≠ []
  := by
  obtain ⟨id, hid, hsource⟩ := hacyclic.exists_source
    (show pending.values.map (·.id) ≠ [] by simpa using hne)
  obtain ⟨s, hs, rfl⟩ := mem_map.mp hid
  have hmem : s ∈ plan.subtasks := hprog.perm.subset (mem_append_right _ hs)
  apply ne_nil_of_mem (a := s.id)
  rw [SubtaskMap.id_mem_ready hs]
  intro d hd
  have hknown := hwf.known s hmem d hd
  rw [Plan.ids, ← (hprog.perm.map _).mem_iff, map_append, mem_append] at hknown
  obtain hdone | hpend := hknown
  · rw [hprog.mem_done]
    apply hdone
  · exfalso
    apply hsource d hpend
    use s

theorem Progress.exists_topoLoop_eq_ok (hwf : plan.WellFormed catalog)
    (hacyclic : Acyclic plan.Depends) (hprog : Progress plan.subtasks pending.values done batches) :
  ∃ result, topoLoop order pending done batches = .ok result
  := by
  fun_induction topoLoop order pending done batches with
  | case1 pending done batches hempty => use batches
  | case2 pending done batches hne ready hready =>
    exfalso
    apply hprog.ready_ne_nil hwf hacyclic (by simpa using hne) hready
  | case3 pending done batches hne ready hready batch ih =>
    apply ih (hprog.round hready)

theorem Plan.WellFormed.topoBatches_eq (hwf : plan.WellFormed catalog) (order : IterationOrder) :
  topoBatches order plan = topoLoop order (SubtaskMap.collect plan.subtasks) [] []
  := by
  have hknown : checkDependencies (SubtaskMap.collect plan.subtasks).containsKey plan.subtasks
      = .ok () := by
    rw [checkDependencies_eq_ok]
    intro s hs d hd
    obtain ⟨t, ht, rfl⟩ := mem_map.mp (hwf.known s hs d hd)
    simp only [SubtaskMap.containsKey, SubtaskMap.values_collect hwf.nodup, any_eq_true]
    use t, ht
    simp
  simp only [topoBatches, hknown]

theorem SubtaskMap.progress (pending : SubtaskMap) :
  Progress pending.values pending.values [] []
  := by
  constructor
  case layers => apply Layered.nil
  case perm => rfl
  case mem_done => simp
  case waiting => simp

theorem Plan.WellFormed.progress (hwf : plan.WellFormed catalog) :
  Progress plan.subtasks (SubtaskMap.collect plan.subtasks).values [] []
  := by
  have hprog := (SubtaskMap.collect plan.subtasks).progress
  rwa [SubtaskMap.values_collect hwf.nodup] at hprog ⊢

theorem layered_collect (hok : topoBatches order plan = .ok batches) :
  Layered (SubtaskMap.collect plan.subtasks).values batches
  := by
  simp only [topoBatches] at hok
  split at hok
  · cases hok
  · apply (SubtaskMap.progress _).layered_of_topoLoop hok

/-! ### The batches of a plan -/

namespace Plan.WellFormed

variable {order : IterationOrder} {batches : List (List Subtask)}

variable (hwf : plan.WellFormed catalog)

include hwf

theorem layered (hok : topoBatches order plan = .ok batches) :
  Layered plan.subtasks batches
  := by
  rw [hwf.topoBatches_eq] at hok
  apply hwf.progress.layered_of_topoLoop hok

theorem exists_topoBatches_iff :
  (∃ batches, topoBatches order plan = .ok batches) ↔ Acyclic plan.Depends
  := by
  constructor
  · rintro ⟨batches, hok⟩
    apply ((hwf.layered hok).layering hwf).acyclic
  · intro hacyclic
    rw [hwf.topoBatches_eq]
    apply hwf.progress.exists_topoLoop_eq_ok hwf hacyclic

theorem of_perm {plan' : Plan} (hperm : plan'.subtasks.Perm plan.subtasks)
    (hout : plan'.finalOutput = plan.finalOutput) :
  plan'.WellFormed catalog
  := by
  constructor
  case finalOutput_ne =>
    rw [hout]
    apply hwf.finalOutput_ne
  case subtasks_ne =>
    intro hnil
    rw [hnil, nil_perm] at hperm
    apply hwf.subtasks_ne hperm
  case nodup =>
    rw [Plan.ids, (hperm.map _).nodup_iff]
    apply hwf.nodup
  case role =>
    intro s hs
    apply hwf.role s (hperm.subset hs)
  case known =>
    intro s hs d hd
    rw [Plan.ids, (hperm.map _).mem_iff]
    apply hwf.known s (hperm.subset hs) d hd

theorem topoBatches_of_perm {plan' : Plan} (hperm : plan'.subtasks.Perm plan.subtasks)
    (hout : plan'.finalOutput = plan.finalOutput) (order' : IterationOrder)
    (hok : topoBatches order plan = .ok batches) :
  topoBatches order' plan' = .ok batches
  := by
  have hwf' := hwf.of_perm hperm hout
  have hdep : plan'.Depends = plan.Depends := by
    ext d id
    simp only [Plan.Depends, hperm.mem_iff]
  have hacyclic := hwf.exists_topoBatches_iff.mp ⟨batches, hok⟩
  rw [← hdep] at hacyclic
  obtain ⟨batches', hok'⟩ := hwf'.exists_topoBatches_iff.mpr hacyclic
  have hlayer := hwf'.layered hok'
  have hperm' : Layered plan.subtasks batches' := { hlayer with perm := hlayer.perm.trans hperm }
  rw [hok', (hwf.layered hok).unique hwf hperm']

end Plan.WellFormed

theorem IterationOrder.arrange_singleton (order : IterationOrder) (s : Subtask) :
  order.arrange [s] = [s]
  := perm_singleton.mp (order.perm [s])

theorem topoLoop_of_ready {order : IterationOrder} {s : Subtask}
    (hready : pending.ready order done = [s.id]) (hget : pending.get s.id = some s)
    (batches : List (List Subtask)) :
  topoLoop order pending done batches
    = topoLoop order (pending.remove s.id) (done ++ [s.id]) (batches ++ [[s]])
  := by
  have hbatch : pending.batch [s.id] = [s] := by
    simp [SubtaskMap.batch, hget]
  have hne : pending.values.isEmpty = false := by
    simpa using ne_nil_of_mem (mem_of_find?_eq_some hget)
  rw [topoLoop, hne]
  simp only [hready, hbatch]
  rfl

theorem topoBatches_singleton (order : IterationOrder) {s : Subtask}
    (hsub : plan.subtasks = [s]) (hdeps : s.dependsOn = []) :
  topoBatches order plan = .ok [[s]]
  := by
  have hcol : SubtaskMap.collect plan.subtasks = ⟨[s], nodup_singleton _⟩ := by
    rw [hsub]
    rfl
  have hcheck : checkDependencies (SubtaskMap.collect plan.subtasks).containsKey plan.subtasks
      = .ok () := by
    rw [checkDependencies_eq_ok, hsub]
    simp [hdeps]
  rw [hcol] at hcheck
  simp only [topoBatches, hcol, hcheck]
  rw [topoLoop_of_ready (s := s), topoLoop]
  · simp [SubtaskMap.remove]
  · simp [SubtaskMap.ready, order.arrange_singleton, hdeps]
  · simp [SubtaskMap.get]

/-- The batches of an accepted plan exist exactly when the dependencies have no cycle, and are the
layers of the subtasks, whatever the order of the subtasks and of iteration. -/
theorem topoBatches_correct
    (order : IterationOrder) (hvalid : validatePlanStructure plan catalog = .ok ()) :
  ((∃ batches, topoBatches order plan = .ok batches) ↔ Acyclic plan.Depends)
    ∧ (∀ batches, topoBatches order plan = .ok batches → Layered plan.subtasks batches)
    ∧ ∀ (order' : IterationOrder) (subtasks : List Subtask), subtasks.Perm plan.subtasks →
      ∀ batches, topoBatches order' { plan with subtasks := subtasks } = .ok batches
        ↔ topoBatches order plan = .ok batches
  := by
  have hwf := validatePlanStructure_eq_ok.mp hvalid
  refine ⟨hwf.exists_topoBatches_iff, fun batches => hwf.layered, ?_⟩
  intro order' subtasks hperm batches
  have hwf' : Plan.WellFormed catalog { plan with subtasks := subtasks } := hwf.of_perm hperm rfl
  constructor
  · apply hwf'.topoBatches_of_perm hperm.symm rfl
  · intro hok
    apply hwf.topoBatches_of_perm _ _ order' hok
    · apply hperm
    · rfl

/-- Two subtasks with one hop each, of which one depends on the other. -/
def fetchWritePlan : Plan where
  subtasks :=
    [{ id := "write", role := "writer", dependsOn := ["fetch"], ttl := some ⟨some 1, none⟩ },
      { id := "fetch", role := "writer", ttl := some ⟨some 1, none⟩ }]
  finalOutput := "report"

/-- A catalog with one role. -/
def writerCatalog : RoleCatalog :=
  AList.insert "writer"
    { name := "writer", model := "small", parameters := ∅, capabilities := [],
      systemPrompt := "Write.", messageTemplate := [], budget := ⟨0⟩ } ∅

def listOrder : IterationOrder := ⟨id, fun _ => .refl _⟩

theorem fetchWritePlan_depends {d id : SubtaskId} :
  fetchWritePlan.Depends d id ↔ d = "fetch" ∧ id = "write"
  := by
  simp only [Plan.Depends, fetchWritePlan, mem_cons, not_mem_nil, or_false]
  constructor
  · rintro ⟨s, rfl | rfl, rfl, hd⟩
    · exact ⟨by simpa using hd, rfl⟩
    · simp at hd
  · rintro ⟨rfl, rfl⟩
    refine ⟨_, .inl rfl, rfl, ?_⟩
    simp

theorem fetchWritePlan_layering :
  Layering fetchWritePlan.Depends (fun id => if id = "write" then 1 else 0)
  := by
  constructor
  · intro u v hedge
    obtain ⟨rfl, rfl⟩ := fetchWritePlan_depends.mp hedge
    decide
  · intro v k hk
    use "fetch"
    rw [fetchWritePlan_depends]
    split_ifs at hk with hv
    obtain rfl : k = 0 := by omega
    exact ⟨⟨rfl, hv⟩, by decide⟩

theorem topoBatches_fetchWritePlan :
  validatePlanStructure fetchWritePlan writerCatalog = .ok ()
    ∧ ∃ batches, topoBatches listOrder fetchWritePlan = .ok batches
      ∧ Layered fetchWritePlan.subtasks batches
  := by
  have hvalid : validatePlanStructure fetchWritePlan writerCatalog = .ok () := by rfl
  obtain ⟨hiff, hlayer, -⟩ := topoBatches_correct listOrder hvalid
  obtain ⟨batches, hok⟩ := hiff.mpr fetchWritePlan_layering.acyclic
  exact ⟨hvalid, batches, hok, hlayer batches hok⟩
