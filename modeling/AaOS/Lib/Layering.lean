import Mathlib.Data.Fintype.Card
import Mathlib.Order.Bounds.Basic
import Mathlib.Order.WellFoundedSet

/-!
# Layerings of a relation

A relation is layered by a rank that grows along its edges by no more than necessary: a node of
positive rank has an edge from a node of the preceding rank.  The rank of a node is then the length
of the longest path to it, so a layering is unique.
-/

open Relation

variable {α : Type} {R : α → α → Prop}

/-- A path of `n` edges ends at the node. -/
inductive PathTo (R : α → α → Prop) : Nat → α → Prop
  | start (v : α) : PathTo R 0 v
  | step {n u v} (hpath : PathTo R n u) (hedge : R u v) : PathTo R (n + 1) v

/-- No node is reached from itself by one or more edges. -/
def Acyclic (R : α → α → Prop) : Prop := ∀ v, ¬ TransGen R v v

theorem acyclic_of_lt (rank : α → Nat) (hlt : ∀ {u v}, R u v → rank u < rank v) :
  Acyclic R
  := by
  have hpath : ∀ {u v}, TransGen R u v → rank u < rank v := by
    intro u v hpath
    induction hpath with
    | single hedge => apply hlt hedge
    | tail _ hedge ih => apply Nat.lt_trans ih (hlt hedge)
  intro v hcycle
  apply Nat.lt_irrefl _ (hpath hcycle)

/-- The rank grows along edges, and a node of positive rank has an edge from the preceding rank. -/
structure Layering (R : α → α → Prop) (rank : α → Nat) : Prop where
  lt : ∀ {u v}, R u v → rank u < rank v
  pred : ∀ {v k}, rank v = k + 1 → ∃ u, R u v ∧ rank u = k

namespace Layering

variable {rank rank' : α → Nat}

variable (hlayer : Layering R rank)

include hlayer

theorem le_of_pathTo {n : Nat} {v : α} (hpath : PathTo R n v) :
  n ≤ rank v
  := by
  induction hpath with
  | start v => apply Nat.zero_le
  | step hpath hedge ih => apply Nat.lt_of_le_of_lt ih (hlayer.lt hedge)

theorem pathTo {n : Nat} {v : α} (hrank : rank v = n) :
  PathTo R n v
  := by
  induction n generalizing v with
  | zero => apply PathTo.start
  | succ n ih =>
    obtain ⟨u, hedge, hpred⟩ := hlayer.pred hrank
    apply PathTo.step (ih hpred) hedge

theorem isGreatest (v : α) :
  IsGreatest {n | PathTo R n v} (rank v)
  := by
  constructor
  · apply hlayer.pathTo rfl
  · intro n hpath
    apply hlayer.le_of_pathTo hpath

theorem unique (hlayer' : Layering R rank') (v : α) :
  rank v = rank' v
  := (hlayer.isGreatest v).unique (hlayer'.isGreatest v)

theorem acyclic :
  Acyclic R
  := acyclic_of_lt rank hlayer.lt

end Layering

theorem Acyclic.exists_source (hacyclic : Acyclic R) {nodes : List α} (hne : nodes ≠ []) :
  ∃ v ∈ nodes, ∀ u ∈ nodes, ¬ R u v
  := by
  have hirr : Std.Irrefl (TransGen R) := ⟨hacyclic⟩
  have horder : IsStrictOrder α (TransGen R) := { }
  have hwf : Set.WellFoundedOn {v | v ∈ nodes} (TransGen R) :=
    (List.finite_toSet nodes).wellFoundedOn
  obtain ⟨first, hfirst⟩ := List.exists_mem_of_ne_nil nodes hne
  by_contra hnone
  push Not at hnone
  apply hwf.induction hfirst
  intro v hv ih
  obtain ⟨u, hu, hedge⟩ := hnone v hv
  apply ih u hu (.single hedge)
