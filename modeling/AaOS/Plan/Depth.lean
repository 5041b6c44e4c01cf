import AaOS.Plan.Layers

/-!
# Depths of subtasks

`apply_depth_to_hops` of `aaos-runtime/src/plan/planner.rs` lowers the hop budgets by the depths,
which it finds by relaxing them, subtask after subtask, until a round changes nothing.  When the
ranks of a layering are 32-bit numbers, every round settles the subtasks of one more rank, so the
depths end as the ranks.
-/

open List

/-- The number less another one, or zero. -/
def saturatingSub (a b : UInt32) : UInt32 := if a ≤ b then 0 else a - b

def idToIdx (subtasks : List Subtask) : Table SubtaskId Nat :=
  subtasks.zipIdx.foldl (fun idx entry => AList.insert entry.1.id entry.2 idx) ∅

def newDepth (idx : Table SubtaskId Nat) (depth : List UInt32) (s : Subtask) : UInt32 :=
  (s.dependsOn.filterMap
    (fun d => (idx.lookup d).map (fun j => depth.getD j 0 + 1))).max?.getD 0

/-- Raise the depth of one subtask, and record whether it has changed. -/
def relax (idx : Table SubtaskId Nat) (state : List UInt32 × Bool) (entry : Subtask × Nat) :
    List UInt32 × Bool :=
  let new := newDepth idx state.1 entry.1
  if new > state.1.getD entry.2 0 then (state.1.set entry.2 new, true) else state

/-- Raise the depths of the subtasks, one after the other. -/
def relaxRound (subtasks : List Subtask) (depth : List UInt32) : List UInt32 × Bool :=
  subtasks.zipIdx.foldl (relax (idToIdx subtasks)) (depth, false)

/-- At most the given number of rounds, until a round changes nothing. -/
def relaxLoop (subtasks : List Subtask) : Nat → List UInt32 → List UInt32
  | 0, depth => depth
  | iterations + 1, depth =>
    let round := relaxRound subtasks depth
    if round.2 then relaxLoop subtasks iterations round.1 else round.1

def depths (subtasks : List Subtask) : List UInt32 :=
  relaxLoop subtasks (subtasks.length + 1) (List.replicate subtasks.length 0)

/-- Lower the hop budgets of the subtasks by their depths. -/
def applyDepthToHops (plan : Plan) : Plan :=
  let depth := depths plan.subtasks
  { plan with
    subtasks := plan.subtasks.zipIdx.map fun (s, i) =>
      { s with
        ttl := s.ttl.map fun ttl =>
          { ttl with
            maxHops := ttl.maxHops.map (fun hops => saturatingSub hops (depth.getD i 0)) } } }

theorem map_applyDepthToHops {β : Type} {f : Subtask → β}
    (hf : ∀ s ttl, f { s with ttl := ttl } = f s) (plan : Plan) :
  (applyDepthToHops plan).subtasks.map f = plan.subtasks.map f
  := by
  simp only [applyDepthToHops, map_map, Function.comp_def, hf]
  rw [← Function.comp_def f Prod.fst, ← map_map, zipIdx_map_fst]

theorem ids_applyDepthToHops (plan : Plan) :
  (applyDepthToHops plan).ids = plan.ids
  := map_applyDepthToHops (fun _ _ => rfl) plan

theorem exists_of_mem_applyDepthToHops {plan : Plan} {s : Subtask}
    (hs : s ∈ (applyDepthToHops plan).subtasks) :
  ∃ ttl, { s with ttl := ttl } ∈ plan.subtasks
  := by
  let f : Subtask → Subtask := fun s => { s with ttl := none }
  have hmem : f s ∈ plan.subtasks.map f := by
    rw [← map_applyDepthToHops (fun _ _ => rfl)]
    apply mem_map_of_mem hs
  obtain ⟨t, ht, heq⟩ := mem_map.mp hmem
  use t.ttl
  have hst : { f s with ttl := t.ttl } = { f t with ttl := t.ttl } := by rw [heq]
  exact hst ▸ ht

/-! ### The depths of a round -/

def depthAt (depth : List UInt32) (i : Nat) : Nat := (depth.getD i 0).toNat

instance lawfulOrderMaxDepth : Std.LawfulOrderMax UInt32 where
  max_eq_or a b := by
    change (if a ≤ b then b else a) = a ∨ (if a ≤ b then b else a) = b
    grind
  max_le_iff a b c := by
    change (if a ≤ b then b else a) ≤ c ↔ a ≤ c ∧ b ≤ c
    grind

variable (idx : Table SubtaskId Nat)

theorem newDepth_spec (depth : List UInt32) (s : Subtask) :
  (∀ d ∈ s.dependsOn, ∀ j, idx.lookup d = some j →
      depth.getD j 0 + 1 ≤ newDepth idx depth s)
    ∧ (newDepth idx depth s = 0 ∨ ∃ d ∈ s.dependsOn, ∃ j, idx.lookup d = some j
      ∧ newDepth idx depth s = depth.getD j 0 + 1)
  := by
  have hmem : ∀ c, c ∈ s.dependsOn.filterMap
        (fun d => (idx.lookup d).map (fun j => depth.getD j 0 + 1))
      ↔ ∃ d ∈ s.dependsOn, ∃ j, idx.lookup d = some j ∧ depth.getD j 0 + 1 = c := by
    simp
  unfold newDepth
  generalize s.dependsOn.filterMap _ = cands at hmem ⊢
  cases hmax : cands.max? with
  | none =>
    rw [max?_eq_none_iff] at hmax
    subst hmax
    simp only [not_mem_nil, false_iff, not_exists, not_and] at hmem
    constructor
    · intro d hd j hj
      exact (hmem _ d hd j hj rfl).elim
    · left
      rfl
  | some m =>
    rw [max?_eq_some_iff] at hmax
    constructor
    · intro d hd j hj
      apply hmax.2
      rw [hmem]
      use d, hd, j
    · right
      obtain ⟨d, hd, j, hj, hm⟩ := (hmem m).mp hmax.1
      use d, hd, j, hj
      apply hm.symm

theorem depthAt_relax {depth : List UInt32} (changed : Bool) (s : Subtask) {i : Nat}
    (hi : i < depth.length) (j : Nat) :
  depthAt (relax idx (depth, changed) (s, i)).1 j
    = if j = i then max (depthAt depth i) (newDepth idx depth s).toNat else depthAt depth j
  := by
  simp only [relax]
  by_cases hraise : newDepth idx depth s > depth.getD i 0
  · have hlt : depthAt depth i < (newDepth idx depth s).toNat := hraise
    rw [if_pos hraise, Nat.max_eq_right (Nat.le_of_lt hlt)]
    by_cases hj : j = i
    · subst hj
      simp [depthAt, getD, hi]
    · simp [depthAt, getD, hj, Ne.symm hj]
  · have hle : (newDepth idx depth s).toNat ≤ depthAt depth i := Nat.le_of_not_lt hraise
    rw [if_neg hraise, Nat.max_eq_left hle]
    split_ifs with hj
    · rw [hj]
    · rfl

@[simp]
theorem length_relax (state : List UInt32 × Bool) (entry : Subtask × Nat) :
  (relax idx state entry).1.length = state.1.length
  := by
  simp only [relax]
  split_ifs <;> simp

/-- A pass that changes nothing leaves the depths as they are. -/
theorem foldl_relax_of_unchanged {idx : Table SubtaskId Nat} {entries : List (Subtask × Nat)}
    {state : List UInt32 × Bool} (hunc : (entries.foldl (relax idx) state).2 = false) :
  entries.foldl (relax idx) state = state ∧ state.2 = false
  := by
  induction entries generalizing state with
  | nil => exact ⟨rfl, hunc⟩
  | cons entry entries ih =>
    rw [foldl_cons] at hunc ⊢
    obtain ⟨hsame, hfalse⟩ := ih hunc
    rw [hsame]
    simp only [relax] at hfalse ⊢
    split_ifs at hfalse ⊢ with hraise
    exact ⟨rfl, hfalse⟩

/-! ### Positions -/

theorem lookup_idToIdx {subtasks : List Subtask} (hnodup : (subtasks.map (·.id)).Nodup)
    {d : SubtaskId} {j : Nat} :
  (idToIdx subtasks).lookup d = some j ↔ ∃ s, subtasks[j]? = some s ∧ s.id = d
  := by
  induction subtasks using reverseRecOn with
  | nil => simp [idToIdx]
  | append_singleton subtasks s ih =>
    rw [map_append, map_singleton, ← concat_eq_append, nodup_concat] at hnodup
    have hsnoc : idToIdx (subtasks ++ [s])
        = AList.insert s.id subtasks.length (idToIdx subtasks) := by
      simp [idToIdx, zipIdx_append]
    have hfresh : ∀ t ∈ subtasks, t.id ≠ s.id := by
      intro t ht hid
      apply hnodup.1
      rw [← hid]
      apply mem_map_of_mem ht
    simp only [hsnoc, Table.lookup_insert', getElem?_snoc_eq_some]
    by_cases hd : d = s.id
    · subst hd
      rw [if_pos rfl]
      constructor
      · rintro ⟨⟩
        exact ⟨s, .inr ⟨rfl, rfl⟩, rfl⟩
      · rintro ⟨t, ht | ⟨rfl, -⟩, hid⟩
        · exact (hfresh t (mem_of_getElem? ht) hid).elim
        · rfl
    · rw [if_neg hd, ih hnodup.2]
      constructor
      · rintro ⟨t, ht, hid⟩
        exact ⟨t, .inl ht, hid⟩
      · rintro ⟨t, ht | ⟨-, rfl⟩, hid⟩
        · exact ⟨t, ht, hid⟩
        · exact (hd hid.symm).elim

/-! ### Relaxing towards the ranks -/

structure BelowRank (subtasks : List Subtask) (rank : SubtaskId → Nat) (depth : List UInt32) :
    Prop where
  length : depth.length = subtasks.length
  le : ∀ (i : Nat) (s : Subtask), subtasks[i]? = some s → depthAt depth i ≤ rank s.id

def SettledTo (subtasks : List Subtask) (rank : SubtaskId → Nat) (k : Nat)
    (depth : List UInt32) : Prop :=
  ∀ (i : Nat) (s : Subtask), subtasks[i]? = some s → rank s.id < k → rank s.id ≤ depthAt depth i

structure Relaxed (idx : Table SubtaskId Nat) (entries : List (Subtask × Nat))
    (depth depth' : List UInt32) : Prop where
  le : ∀ j, depthAt depth j ≤ depthAt depth' j
  lt : ∀ e ∈ entries, ∀ d ∈ e.1.dependsOn, ∀ j, idx.lookup d = some j →
    depthAt depth j < depthAt depth' e.2

theorem Relaxed.cons {idx : Table SubtaskId Nat} {e : Subtask × Nat}
    {entries : List (Subtask × Nat)} {depth depth' depth'' : List UInt32}
    (hfirst : Relaxed idx [e] depth depth') (hrest : Relaxed idx entries depth' depth'') :
  Relaxed idx (e :: entries) depth depth''
  := by
  constructor
  · intro j
    apply Nat.le_trans (hfirst.le j) (hrest.le j)
  · intro e' he' d hd j hj
    obtain rfl | he' := mem_cons.mp he'
    · apply Nat.lt_of_lt_of_le (hfirst.lt e' mem_cons_self d hd j hj) (hrest.le _)
    · apply Nat.lt_of_le_of_lt (hfirst.le j) (hrest.lt e' he' d hd j hj)

section Relax

variable {catalog : RoleCatalog} {plan : Plan} {rank : SubtaskId → Nat}

variable (hwf : plan.WellFormed catalog) (hlayer : Layering plan.Depends rank)
  (hsmall : ∀ s ∈ plan.subtasks, rank s.id < 2 ^ 32)

include hwf hlayer hsmall

variable {depth : List UInt32} {s : Subtask}

theorem BelowRank.newDepth (hbelow : BelowRank plan.subtasks rank depth) (hs : s ∈ plan.subtasks) :
  (newDepth (idToIdx plan.subtasks) depth s).toNat ≤ rank s.id
    ∧ ∀ d ∈ s.dependsOn, ∀ j, (idToIdx plan.subtasks).lookup d = some j →
      depthAt depth j + 1 ≤ (newDepth (idToIdx plan.subtasks) depth s).toNat
  := by
  obtain ⟨hlower, hatt⟩ := newDepth_spec (idToIdx plan.subtasks) depth s
  have hsucc : ∀ d ∈ s.dependsOn, ∀ j, (idToIdx plan.subtasks).lookup d = some j →
      (depth.getD j 0 + 1).toNat = depthAt depth j + 1 ∧ depthAt depth j < rank s.id := by
    intro d hd j hj
    obtain ⟨t, ht, rfl⟩ := (lookup_idToIdx hwf.nodup).mp hj
    have hle := hbelow.le j t ht
    have hlt := hlayer.lt ((hwf.depends_iff hs).mpr hd)
    have hbound := hsmall s hs
    constructor
    · unfold depthAt at hle ⊢
      rw [UInt32.toNat_add, UInt32.toNat_one, Nat.mod_eq_of_lt (by omega)]
    · omega
  constructor
  · obtain hzero | ⟨d, hd, j, hj, hnew⟩ := hatt
    · simp [hzero]
    · rw [hnew, (hsucc d hd j hj).1]
      apply (hsucc d hd j hj).2
  · intro d hd j hj
    rw [← (hsucc d hd j hj).1]
    apply hlower d hd j hj

theorem relax_relaxed (hbelow : BelowRank plan.subtasks rank depth) (changed : Bool) {i : Nat}
    (hs : plan.subtasks[i]? = some s) :
  BelowRank plan.subtasks rank (relax (idToIdx plan.subtasks) (depth, changed) (s, i)).1
    ∧ Relaxed (idToIdx plan.subtasks) [(s, i)] depth
      (relax (idToIdx plan.subtasks) (depth, changed) (s, i)).1
  := by
  obtain ⟨hupper, hlower⟩ := hbelow.newDepth hwf hlayer hsmall (mem_of_getElem? hs)
  obtain ⟨hi, -⟩ := List.getElem?_eq_some_iff.mp hs
  have hdepth := depthAt_relax (idToIdx plan.subtasks) changed s (hbelow.length ▸ hi)
  refine ⟨⟨?_, ?_⟩, ⟨?_, ?_⟩⟩
  · rw [length_relax, hbelow.length]
  · intro j t ht
    rw [hdepth]
    split_ifs with hj
    · subst hj
      rw [hs] at ht
      cases ht
      apply Nat.max_le.mpr ⟨hbelow.le j s hs, hupper⟩
    · apply hbelow.le j t ht
  · intro j
    rw [hdepth]
    split_ifs with hj
    · rw [hj]
      apply Nat.le_max_left
    · apply Nat.le_refl
  · intro e he d hd j hj
    obtain rfl := mem_singleton.mp he
    rw [hdepth, if_pos rfl]
    apply Nat.lt_of_lt_of_le (hlower d hd j hj)
    apply Nat.le_max_right

theorem foldl_relax_relaxed {entries : List (Subtask × Nat)}
    (hent : ∀ e ∈ entries, plan.subtasks[e.2]? = some e.1) (state : List UInt32 × Bool)
    (hbelow : BelowRank plan.subtasks rank state.1) :
  BelowRank plan.subtasks rank (entries.foldl (relax (idToIdx plan.subtasks)) state).1
    ∧ Relaxed (idToIdx plan.subtasks) entries state.1
      (entries.foldl (relax (idToIdx plan.subtasks)) state).1
  := by
  induction entries generalizing state with
  | nil => exact ⟨hbelow, ⟨fun j => Nat.le_refl _, by simp⟩⟩
  | cons e entries ih =>
    obtain ⟨he, hent⟩ := List.forall_mem_cons.mp hent
    obtain ⟨hstep, hfirst⟩ := relax_relaxed hwf hlayer hsmall hbelow state.2 he
    obtain ⟨hpass, hrest⟩ := ih hent _ hstep
    exact ⟨hpass, hfirst.cons hrest⟩

variable {k : Nat}

theorem relaxRound_settled (hbelow : BelowRank plan.subtasks rank depth)
    (hset : SettledTo plan.subtasks rank k depth) :
  BelowRank plan.subtasks rank (relaxRound plan.subtasks depth).1
    ∧ SettledTo plan.subtasks rank (k + 1) (relaxRound plan.subtasks depth).1
  := by
  have hent : ∀ e ∈ plan.subtasks.zipIdx, plan.subtasks[e.2]? = some e.1 := by
    intro e he
    apply mem_zipIdx_iff_getElem?.mp he
  obtain ⟨hround, hrel⟩ := foldl_relax_relaxed hwf hlayer hsmall hent (depth, false) hbelow
  refine ⟨hround, ?_⟩
  intro i s hs hk
  cases hrank : rank s.id with
  | zero => apply Nat.zero_le
  | succ r =>
    obtain ⟨d, hdep, hd⟩ := hlayer.pred hrank
    rw [hwf.depends_iff (mem_of_getElem? hs)] at hdep
    obtain ⟨t, ht, rfl⟩ := mem_map.mp (hwf.known s (mem_of_getElem? hs) d hdep)
    obtain ⟨j, hj⟩ := mem_iff_getElem?.mp ht
    have hlook := (lookup_idToIdx hwf.nodup).mpr ⟨t, hj, rfl⟩
    have hlt := hrel.lt (s, i) (mem_zipIdx_iff_getElem?.mpr hs) t.id hdep j hlook
    have hle := hset j t hj (by omega)
    rw [hd] at hle
    apply Nat.lt_of_le_of_lt hle hlt

theorem settledTo_of_fixed (hbelow : BelowRank plan.subtasks rank depth)
    (hfixed : (relaxRound plan.subtasks depth).1 = depth)
    (hset : SettledTo plan.subtasks rank k depth) (m : Nat) :
  SettledTo plan.subtasks rank (k + m) depth
  := by
  induction m with
  | zero => apply hset
  | succ m ih =>
    have hround := (relaxRound_settled hwf hlayer hsmall hbelow ih).2
    rwa [hfixed] at hround

/-- The loop settles as many ranks as it may make rounds, also when it stops early. -/
theorem relaxLoop_settled (iterations : Nat) (hbelow : BelowRank plan.subtasks rank depth)
    (hset : SettledTo plan.subtasks rank k depth) :
  BelowRank plan.subtasks rank (relaxLoop plan.subtasks iterations depth)
    ∧ SettledTo plan.subtasks rank (k + iterations) (relaxLoop plan.subtasks iterations depth)
  := by
  induction iterations generalizing depth k with
  | zero => exact ⟨hbelow, hset⟩
  | succ iterations ih =>
    obtain ⟨hround, hmore⟩ := relaxRound_settled hwf hlayer hsmall hbelow hset
    rw [relaxLoop]
    by_cases hchan : (relaxRound plan.subtasks depth).2 = true
    · simp only [if_pos hchan]
      obtain ⟨hloop, hend⟩ := ih hround hmore
      exact ⟨hloop, by rwa [Nat.add_right_comm] at hend⟩
    · simp only [if_neg hchan]
      have hfixed : (relaxRound plan.subtasks depth).1 = depth :=
        congrArg Prod.fst (foldl_relax_of_unchanged (Bool.eq_false_of_not_eq_true hchan)).1
      rw [hfixed]
      exact ⟨hbelow, settledTo_of_fixed hwf hlayer hsmall hbelow hfixed hset _⟩

theorem depthAt_depths (hrank : ∀ s ∈ plan.subtasks, rank s.id ≤ plan.subtasks.length) {i : Nat}
    (hs : plan.subtasks[i]? = some s) :
  depthAt (depths plan.subtasks) i = rank s.id
  := by
  have hstart : BelowRank plan.subtasks rank (replicate plan.subtasks.length 0) := by
    constructor
    · simp
    · intro j t ht
      obtain ⟨hj, -⟩ := List.getElem?_eq_some_iff.mp ht
      simp [depthAt, getD, hj]
  have hnone : SettledTo plan.subtasks rank 0 (replicate plan.subtasks.length 0) := by
    intro j t ht hlt
    cases hlt
  obtain ⟨hbelow, hset⟩ := relaxLoop_settled hwf hlayer hsmall (plan.subtasks.length + 1)
    hstart hnone
  apply Nat.le_antisymm (hbelow.le i s hs)
  apply hset i s hs
  have hle := hrank s (mem_of_getElem? hs)
  omega

end Relax
