import Mathlib.Data.List.Basic

/-!
# Stages

The jobs of a stage run together, and their steps take place in some common order.  The
stages run one after the other, up to the first one that fails.
-/

open List

variable {α β : Type}

/-- Every step of the jobs takes place, and the steps of a job keep their order. -/
structure JoinOrder (α : Type) where
  merge : List (List α) → List α
  perm : ∀ jobs, (merge jobs).Perm jobs.flatten
  sublist : ∀ jobs, ∀ job ∈ jobs, List.Sublist job (merge jobs)

def JoinOrder.sequential (α : Type) : JoinOrder α where
  merge := List.flatten
  perm _ := .refl _
  sublist _ _ hjob := List.sublist_flatten_of_mem hjob

def attempted (fails : β → Bool) : List β → List β
  | [] => []
  | b :: stages => if fails b then [b] else b :: attempted fails stages

section Attempted

variable {fails : β → Bool} {stages : List β}

theorem attempted_append (fails : β → Bool) (stages : List β) :
  ∃ rest, attempted fails stages ++ rest = stages
  := by
  induction stages with
  | nil => use []; rfl
  | cons b stages ih =>
    rw [attempted]
    split_ifs
    · use stages
      rfl
    · obtain ⟨rest, hrest⟩ := ih
      use rest
      rw [cons_append, hrest]

theorem fails_eq_false_of_attempted {before after : List β} {b : β}
    (heq : attempted fails stages = before ++ b :: after) :
  ∀ c ∈ before, fails c = false
  := by
  induction stages generalizing before with
  | nil => simp [attempted] at heq
  | cons d stages ih =>
    rw [attempted] at heq
    split_ifs at heq with hfails
    · obtain - | ⟨c, before⟩ := before
      · simp
      · simp at heq
    · obtain - | ⟨c, before⟩ := before
      · simp
      · obtain ⟨rfl, hrest⟩ := cons.inj heq
        intro e he
        obtain rfl | he := mem_cons.mp he
        · simpa using hfails
        · apply ih hrest e he

theorem attempted_eq_self (hnone : ∀ b ∈ stages, fails b = false) :
  attempted fails stages = stages
  := by
  induction stages with
  | nil => rfl
  | cons b stages ih =>
    rw [attempted, hnone b mem_cons_self, ih]
    · rfl
    · intro c hc
      apply hnone c (mem_cons_of_mem b hc)

theorem attempted_of_fails {earlier later : List β} {b : β}
    (hear : ∀ c ∈ earlier, fails c = false) (hfails : fails b = true) :
  attempted fails (earlier ++ b :: later) = earlier ++ [b]
  := by
  induction earlier with
  | nil => rw [nil_append, attempted, if_pos hfails, nil_append]
  | cons c earlier ih =>
    rw [cons_append, attempted, hear c mem_cons_self, ih]
    · rfl
    · intro d hd
      apply hear d (mem_cons_of_mem c hd)

end Attempted

theorem exists_of_flatMap_eq {f : β → List α} {stages : List β} {before after : List α} {a : α}
    (heq : stages.flatMap f = before ++ a :: after) :
  ∃ earlier b later first last, stages = earlier ++ b :: later ∧ f b = first ++ a :: last
    ∧ before = earlier.flatMap f ++ first
  := by
  induction stages generalizing before with
  | nil => simp at heq
  | cons b stages ih =>
    rw [flatMap_cons] at heq
    obtain ⟨rest, hbef, hrest⟩ | ⟨rest, hf, hrest⟩ := append_eq_append_iff.mp heq
    · obtain ⟨earlier, c, later, first, last, rfl, hc, rfl⟩ := ih hrest
      use b :: earlier, c, later, first, last, rfl, hc
      rw [hbef, flatMap_cons, append_assoc]
    · obtain - | ⟨a', rest⟩ := rest
      · have hnext : stages.flatMap f = [] ++ a :: after := hrest.symm
        obtain ⟨earlier, c, later, first, last, rfl, hc, hnil⟩ := ih hnext
        use b :: earlier, c, later, first, last, rfl, hc
        rw [flatMap_cons, append_assoc, ← hnil, hf]
        simp
      · obtain ⟨rfl, hlater⟩ := cons.inj hrest
        use [], b, stages, before, rest, rfl, hf
        simp
