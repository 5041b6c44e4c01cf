import Mathlib.Data.Char
import Mathlib.Data.List.Lex
import AaOS.Plan.Structure

/-!
# Layers of subtasks

A subtask may run when the subtasks it depends on have run; the layers are the earliest batches
with this property.  The number of the layer of a subtask is the length of the longest path that
leads to it, so the sorted layers are unique.
-/

open List

/-- The batch with the given number contains the subtask with the given identifier. -/
def InBatch (batches : List (List Subtask)) (k : Nat) (id : SubtaskId) : Prop :=
  ∃ batch, batches[k]? = some batch ∧ id ∈ batch.map (·.id)

/-- The batches are sorted layers: they contain each subtask once, its dependencies are in earlier
batches, and one of them is in the batch before unless it is in the first one. -/
structure Layered (subtasks : List Subtask) (batches : List (List Subtask)) : Prop where
  ne_nil : ∀ batch ∈ batches, batch ≠ []
  perm : batches.flatten.Perm subtasks
  earlier : ∀ (k : Nat) (batch : List Subtask), batches[k]? = some batch →
    ∀ s ∈ batch, ∀ d ∈ s.dependsOn, ∃ j < k, InBatch batches j d
  earliest : ∀ (k : Nat) (batch : List Subtask), batches[k + 1]? = some batch →
    ∀ s ∈ batch, ∃ d ∈ s.dependsOn, InBatch batches k d
  sorted : ∀ batch ∈ batches, batch.Pairwise (fun a b => a.id ≤ b.id)

theorem getElem?_snoc_eq_some {α : Type} {l : List α} {a b : α} {k : Nat} :
  (l ++ [a])[k]? = some b ↔ l[k]? = some b ∨ (k = l.length ∧ b = a)
  := by
  rw [getElem?_append]
  split_ifs with hk
  · have hne : k ≠ l.length := by omega
    simp [hne]
  · have hnone : l[k]? = none := getElem?_eq_none (by omega)
    have hzero : k - l.length = 0 ↔ k = l.length := by omega
    simp [hnone, hzero, getElem?_singleton, eq_comm]

section InBatch

variable {batches : List (List Subtask)} {batch : List Subtask} {k : Nat} {id : SubtaskId}

theorem InBatch.snoc (hin : InBatch batches k id) :
  InBatch (batches ++ [batch]) k id
  := by
  obtain ⟨before, hbef, hid⟩ := hin
  use before
  obtain ⟨hk, -⟩ := List.getElem?_eq_some_iff.mp hbef
  rw [getElem?_append_left hk]
  exact ⟨hbef, hid⟩

theorem exists_inBatch (hid : id ∈ batches.flatten.map (·.id)) :
  ∃ k < batches.length, InBatch batches k id
  := by
  rw [map_flatten, mem_flatten] at hid
  obtain ⟨_, hmap, hid⟩ := hid
  obtain ⟨batch, hbatch, rfl⟩ := mem_map.mp hmap
  obtain ⟨k, hk, rfl⟩ := mem_iff_getElem.mp hbatch
  use k, hk, batches[k]
  exact ⟨getElem?_eq_getElem hk, hid⟩

theorem InBatch.mem_flatten (hin : InBatch batches k id) :
  id ∈ batches.flatten.map (·.id)
  := by
  obtain ⟨batch, hbatch, hid⟩ := hin
  rw [List.map_flatten, List.mem_flatten]
  use batch.map (·.id)
  exact ⟨mem_map_of_mem (mem_of_getElem? hbatch), hid⟩

end InBatch

namespace Layered

variable {batches : List (List Subtask)}

theorem nil : Layered [] [] where
  ne_nil := by simp
  perm := List.Perm.nil
  earlier := by simp
  earliest := by simp
  sorted := by simp

theorem snoc (hlayer : Layered batches.flatten batches) {batch : List Subtask}
    (hne : batch ≠ []) (hsor : batch.Pairwise (fun a b => a.id ≤ b.id))
    (hear : ∀ s ∈ batch, ∀ d ∈ s.dependsOn, d ∈ batches.flatten.map (·.id))
    (hearl : ∀ k, batches.length = k + 1 → ∀ s ∈ batch,
      ∃ d ∈ s.dependsOn, InBatch batches k d) :
  Layered (batches ++ [batch]).flatten (batches ++ [batch])
  := by
  constructor
  case ne_nil =>
    intro b hb
    obtain hb | rfl : b ∈ batches ∨ b = batch := by simpa using hb
    · apply hlayer.ne_nil b hb
    · apply hne
  case perm => rfl
  case earlier =>
    intro k b hb s hs d hd
    obtain hb | ⟨rfl, rfl⟩ := getElem?_snoc_eq_some.mp hb
    · obtain ⟨j, hj, hin⟩ := hlayer.earlier k b hb s hs d hd
      use j, hj
      apply hin.snoc
    · obtain ⟨j, hj, hin⟩ := exists_inBatch (hear s hs d hd)
      use j, hj
      apply hin.snoc
  case earliest =>
    intro k b hb s hs
    obtain hb | ⟨hk, rfl⟩ := getElem?_snoc_eq_some.mp hb
    · obtain ⟨d, hd, hin⟩ := hlayer.earliest k b hb s hs
      use d, hd
      apply hin.snoc
    · obtain ⟨d, hd, hin⟩ := hearl k hk.symm s hs
      use d, hd
      apply hin.snoc
  case sorted =>
    intro b hb
    obtain hb | rfl : b ∈ batches ∨ b = batch := by simpa using hb
    · apply hlayer.sorted b hb
    · apply hsor

end Layered

/-! ### Ranks -/

variable {catalog : RoleCatalog} {plan : Plan}

def batchIndex (batches : List (List Subtask)) (id : SubtaskId) : Nat :=
  (batches.findIdx? (fun batch => batch.any (fun s => s.id = id))).getD 0

variable {batches : List (List Subtask)} {id : SubtaskId}

theorem batchIndex_of_not_mem (hid : id ∉ batches.flatten.map (·.id)) :
  batchIndex batches id = 0
  := by
  have hnone : batches.findIdx? (fun batch => batch.any (fun s => s.id = id)) = none := by
    rw [findIdx?_eq_none_iff]
    intro batch hbatch
    simp only [any_eq_false, decide_eq_true_eq]
    rintro s hs rfl
    apply hid
    apply mem_map_of_mem (mem_flatten_of_mem hbatch hs)
  rw [batchIndex, hnone, Option.getD_none]

theorem inBatch_batchIndex (hid : id ∈ batches.flatten.map (·.id)) :
  InBatch batches (batchIndex batches id) id
  := by
  unfold batchIndex
  cases hfind : batches.findIdx? (fun batch => batch.any (fun s => s.id = id)) with
  | none =>
    rw [findIdx?_eq_none_iff] at hfind
    obtain ⟨s, hs, rfl⟩ := mem_map.mp hid
    obtain ⟨batch, hbatch, hs⟩ := mem_flatten.mp hs
    have hany := hfind batch hbatch
    rw [any_eq_false] at hany
    simpa using hany s hs
  | some k =>
    obtain ⟨hk, hany, -⟩ := findIdx?_eq_some_iff_getElem.mp hfind
    use batches[k]
    simpa [getElem?_eq_getElem hk] using hany

theorem InBatch.unique {j k : Nat} (hnodup : (batches.flatten.map (·.id)).Nodup)
    (hj : InBatch batches j id) (hk : InBatch batches k id) :
  j = k
  := by
  rw [map_flatten, nodup_flatten, pairwise_iff_getElem] at hnodup
  obtain ⟨first, hfirst, hid₁⟩ := hj
  obtain ⟨second, hsec, hid₂⟩ := hk
  obtain ⟨hj, rfl⟩ := List.getElem?_eq_some_iff.mp hfirst
  obtain ⟨hk, rfl⟩ := List.getElem?_eq_some_iff.mp hsec
  have hdis := hnodup.2
  simp only [length_map, getElem_map] at hdis
  obtain hlt | heq | hgt := Nat.lt_trichotomy j k
  · exact (hdis j k hj hk hlt hid₁ hid₂).elim
  · apply heq
  · exact (hdis k j hk hj hgt hid₂ hid₁).elim

namespace Layered

variable {batches batches' : List (List Subtask)} {batch : List Subtask} {k : Nat}

theorem nodup_flatten (hwf : plan.WellFormed catalog) (hlayer : Layered plan.subtasks batches) :
  (batches.flatten.map (·.id)).Nodup
  := by
  rw [(hlayer.perm.map _).nodup_iff]
  apply hwf.nodup

theorem batchIndex_eq (hwf : plan.WellFormed catalog) (hlayer : Layered plan.subtasks batches)
    {id : SubtaskId} (hin : InBatch batches k id) :
  batchIndex batches id = k
  := by
  apply InBatch.unique (hlayer.nodup_flatten hwf) (inBatch_batchIndex hin.mem_flatten) hin

theorem nodup_batch (hwf : plan.WellFormed catalog) (hlayer : Layered plan.subtasks batches)
    (hbatch : batches[k]? = some batch) :
  batch.Nodup
  := by
  have hnodup := List.Nodup.of_map _ (hlayer.nodup_flatten hwf)
  rw [List.nodup_flatten] at hnodup
  apply hnodup.1 batch (mem_of_getElem? hbatch)

theorem exists_batch (hlayer : Layered plan.subtasks batches) {s : Subtask}
    (hs : s ∈ plan.subtasks) :
  ∃ (k : Nat) (batch : List Subtask), batches[k]? = some batch ∧ s ∈ batch
  := by
  obtain ⟨batch, hbatch, hs⟩ := mem_flatten.mp (hlayer.perm.mem_iff.mpr hs)
  obtain ⟨k, hk, rfl⟩ := mem_iff_getElem.mp hbatch
  use k, batches[k], getElem?_eq_getElem hk

variable (hwf : plan.WellFormed catalog)

include hwf

theorem mem_batch_iff (hlayer : Layered plan.subtasks batches) (hbatch : batches[k]? = some batch)
    {s : Subtask} :
  s ∈ batch ↔ s ∈ plan.subtasks ∧ batchIndex batches s.id = k
  := by
  constructor
  · intro hs
    constructor
    · apply hlayer.perm.subset
      apply mem_flatten_of_mem (mem_of_getElem? hbatch) hs
    · apply hlayer.batchIndex_eq hwf ⟨batch, hbatch, mem_map_of_mem hs⟩
  · rintro ⟨hs, rfl⟩
    obtain ⟨j, other, hother, hs⟩ := hlayer.exists_batch hs
    rw [hlayer.batchIndex_eq hwf ⟨other, hother, mem_map_of_mem hs⟩, hother] at hbatch
    cases hbatch
    apply hs

theorem layering (hlayer : Layered plan.subtasks batches) :
  Layering plan.Depends (batchIndex batches)
  := by
  constructor
  · rintro d _ ⟨s, hs, rfl, hd⟩
    obtain ⟨k, batch, hbatch, hs⟩ := hlayer.exists_batch hs
    obtain ⟨j, hj, hin⟩ := hlayer.earlier k batch hbatch s hs d hd
    rw [((hlayer.mem_batch_iff hwf hbatch).mp hs).2, hlayer.batchIndex_eq hwf hin]
    apply hj
  · intro id k hk
    have hid : id ∈ batches.flatten.map (·.id) := by
      by_contra hnot
      rw [batchIndex_of_not_mem hnot] at hk
      cases hk
    obtain ⟨batch, hbatch, hmem⟩ := inBatch_batchIndex hid
    obtain ⟨s, hs, rfl⟩ := mem_map.mp hmem
    obtain ⟨d, hd, hin⟩ := hlayer.earliest k batch (hk ▸ hbatch) s hs
    use d
    constructor
    · use s, ((hlayer.mem_batch_iff hwf hbatch).mp hs).1
    · apply hlayer.batchIndex_eq hwf hin

theorem getElem?_eq_some (hlayer : Layered plan.subtasks batches)
    (hlayer' : Layered plan.subtasks batches') (hbatch : batches[k]? = some batch) :
  batches'[k]? = some batch
  := by
  have hindex := (hlayer.layering hwf).unique (hlayer'.layering hwf)
  obtain ⟨s, hs⟩ := exists_mem_of_ne_nil _ (hlayer.ne_nil batch (mem_of_getElem? hbatch))
  obtain ⟨hs, hk⟩ := (hlayer.mem_batch_iff hwf hbatch).mp hs
  obtain ⟨j, batch', hbatch', hs'⟩ := hlayer'.exists_batch hs
  obtain rfl : j = k := by
    rw [← hk, hindex, ((hlayer'.mem_batch_iff hwf hbatch').mp hs').2]
  have hmem : ∀ t, t ∈ batch ↔ t ∈ batch' := by
    intro t
    rw [hlayer.mem_batch_iff hwf hbatch, hlayer'.mem_batch_iff hwf hbatch', hindex]
  have hperm : batch'.Perm batch := by
    rw [perm_ext_iff_of_nodup (hlayer'.nodup_batch hwf hbatch')
      (hlayer.nodup_batch hwf hbatch)]
    intro t
    rw [hmem]
  rw [hbatch']
  congr 1
  apply hperm.eq_of_pairwise
  · intro a b ha hb hab hba
    apply inj_on_of_nodup_map hwf.nodup
    · apply ((hlayer'.mem_batch_iff hwf hbatch').mp ha).1
    · apply ((hlayer.mem_batch_iff hwf hbatch).mp hb).1
    · apply le_antisymm hab hba
  · apply hlayer'.sorted batch' (mem_of_getElem? hbatch')
  · apply hlayer.sorted batch (mem_of_getElem? hbatch)

theorem unique (hlayer : Layered plan.subtasks batches) (hlayer' : Layered plan.subtasks batches') :
  batches = batches'
  := by
  apply ext_getElem?
  intro k
  ext batch
  constructor
  · apply hlayer.getElem?_eq_some hwf hlayer'
  · apply hlayer'.getElem?_eq_some hwf hlayer

end Layered
