import Mathlib.Data.Multiset.Count
import Mathlib.Logic.Relation

/-!
# Pools of processes

Any number of processes act on a shared state.  A step starts a process, or lets one of them
move.  A property of the shared state, one of each process and a relation between any two of them
always hold when a start and a move of one process keep them.
-/

open Multiset

/-- A shared state and the processes that act on it. -/
structure Pool (σ π : Type) where
  shared : σ
  running : Multiset π

namespace Pool

variable {σ π : Type}

/-- The number of processes that pass a test. -/
def count (test : π → Bool) (pool : Pool σ π) : Nat := pool.running.countP (test · = true)

variable (test : π → Bool) (s : σ)

@[simp]
theorem count_zero :
  count test ⟨s, 0⟩ = 0
  := rfl

@[simp]
theorem count_cons (p : π) (m : Multiset π) :
  count test ⟨s, p ::ₘ m⟩ = (test p).toNat + count test ⟨s, m⟩
  := by
  unfold count
  rw [countP_cons]
  cases test p <;> simp [Nat.add_comm]

theorem count_shared (s' : σ) (m : Multiset π) :
  count test ⟨s, m⟩ = count test ⟨s', m⟩
  := rfl

theorem count_pos {test : π → Bool} {pool : Pool σ π} {p : π} (hmem : p ∈ pool.running)
    (htest : test p = true) :
  0 < pool.count test
  := by
  apply countP_pos.mpr
  use p

/-- The other processes and what has become of the one that moved. -/
def rejoin (m : Multiset π) (p : Option π) : Multiset π := p.elim m (· ::ₘ m)

variable (m : Multiset π)

@[simp]
theorem rejoin_none : rejoin m none = m := rfl

@[simp]
theorem rejoin_some (p : π) : rejoin m (some p) = p ::ₘ m := rfl

theorem mem_rejoin {m : Multiset π} {p : Option π} {q : π} :
  q ∈ rejoin m p ↔ p = some q ∨ q ∈ m
  := by
  cases p with
  | none => simp
  | some p => simp [eq_comm]

theorem count_rejoin (p : Option π) :
  count test ⟨s, rejoin m p⟩ = p.elim 0 (fun p => (test p).toNat) + count test ⟨s, m⟩
  := by
  cases p <;> simp

end Pool

/-- When a process may start beside the others, and how it may move beside them. -/
structure PoolSystem (σ π : Type) where
  Start : σ → Multiset π → π → Prop
  Move : σ → Multiset π → π → σ → Option π → Prop

namespace PoolSystem

variable {σ π : Type} {sys : PoolSystem σ π}

/-- One step of a pool. -/
inductive Step (sys : PoolSystem σ π) : Pool σ π → Pool σ π → Prop
  | start {s m p} (hstart : sys.Start s m p) :
      Step sys ⟨s, m⟩ ⟨s, p ::ₘ m⟩
  | move {s s' m p p'} (hmove : sys.Move s m p s' p') :
      Step sys ⟨s, p ::ₘ m⟩ ⟨s', Pool.rejoin m p'⟩

theorem Step.goesOn {s s' : σ} {m : Multiset π} {p p' : π} (hmove : sys.Move s m p s' (some p')) :
  sys.Step ⟨s, p ::ₘ m⟩ ⟨s', p' ::ₘ m⟩
  := Step.move hmove

theorem Step.ends {s s' : σ} {m : Multiset π} {p : π} (hmove : sys.Move s m p s' none) :
  sys.Step ⟨s, p ::ₘ m⟩ ⟨s', m⟩
  := Step.move hmove

/-- Any number of steps. -/
abbrev Reaches (sys : PoolSystem σ π) : Pool σ π → Pool σ π → Prop :=
  Relation.ReflTransGen sys.Step

/-- The system in which only the allowed moves are made. -/
def restrict (sys : PoolSystem σ π) (Allowed : σ → π → σ → Option π → Prop) : PoolSystem σ π where
  Start := sys.Start
  Move s m p s' p' := sys.Move s m p s' p' ∧ Allowed s p s' p'

variable {pool pool' : Pool σ π}

theorem Reaches.transfer {sys' : PoolSystem σ π} (hreach : sys.Reaches pool pool')
    (hstart : ∀ s m p, sys.Start s m p → sys'.Start s m p)
    (hmove : ∀ s m p s' p', sys.Reaches pool ⟨s, p ::ₘ m⟩ → sys.Move s m p s' p' →
      sys'.Move s m p s' p') :
  sys'.Reaches pool pool'
  := by
  induction hreach with
  | refl => apply Relation.ReflTransGen.refl
  | tail hbef hstep ih =>
    apply ih.tail
    cases hstep with
    | start h => apply Step.start (hstart _ _ _ h)
    | move h => apply Step.move (hmove _ _ _ _ _ hbef h)

theorem Reaches.of_restrict {Allowed : σ → π → σ → Option π → Prop}
    (hreach : (sys.restrict Allowed).Reaches pool pool') :
  sys.Reaches pool pool'
  := by
  apply hreach.transfer
  · intro s m p hstart
    apply hstart
  · intro s m p s' p' _ hmove
    apply hmove.1

theorem invariant {P : Pool σ π → Prop}
    (hstart : ∀ s m p, sys.Start s m p → P ⟨s, m⟩ → P ⟨s, p ::ₘ m⟩)
    (hmove : ∀ s m p s' p', sys.Move s m p s' p' → P ⟨s, p ::ₘ m⟩ → P ⟨s', Pool.rejoin m p'⟩)
    (hreach : sys.Reaches pool pool') (hinv : P pool) :
  P pool'
  := by
  induction hreach with
  | refl => apply hinv
  | tail _ hstep ih =>
    cases hstep with
    | start h => apply hstart _ _ _ h ih
    | move h => apply hmove _ _ _ _ _ h ih

/-- A property of the shared state, of each process and of any two of them. -/
structure Holds (Shared : σ → Prop) (Each : σ → π → Prop) (Apart : π → π → Prop)
    (pool : Pool σ π) : Prop where
  shared : Shared pool.shared
  each : ∀ p ∈ pool.running, Each pool.shared p
  apart : ∀ p m, pool.running = p ::ₘ m → ∀ q ∈ m, Apart p q

/-- The properties are kept by a start, and by a move of one process beside the others. -/
structure Keeps (sys : PoolSystem σ π) (Shared : σ → Prop) (Each : σ → π → Prop)
    (Apart : π → π → Prop) : Prop where
  symm : ∀ p q, Apart p q → Apart q p
  start : ∀ s m p, sys.Start s m p → Shared s → (∀ q ∈ m, Each s q) →
    Each s p ∧ ∀ q ∈ m, Apart p q
  shared : ∀ s m p s' p', sys.Move s m p s' p' → Shared s → Each s p → (∀ q ∈ m, Each s q) →
    Shared s'
  each : ∀ s m p s' p', sys.Move s m p (s') (some p') → Shared s → Each s p →
    (∀ q ∈ m, Each s q) → Each s' p'
  others : ∀ s m p s' p', sys.Move s m p s' p' → Shared s → Each s p →
    ∀ q ∈ m, Each s q → Apart p q → Each s' q
  apart : ∀ s m p s' p', sys.Move s m p s' (some p') → Shared s → Each s p →
    ∀ q ∈ m, Each s q → Apart p q → Apart p' q

variable {Shared : σ → Prop} {Each : σ → π → Prop} {Apart : π → π → Prop}

namespace Keeps

variable (hkeeps : sys.Keeps Shared Each Apart)

include hkeeps

variable {m : Multiset π} {p : π}

theorem apart_cons (hp : ∀ q ∈ m, Apart p q)
    (hm : ∀ q rest, m = q ::ₘ rest → ∀ r ∈ rest, Apart q r) :
  ∀ q rest, p ::ₘ m = q ::ₘ rest → ∀ r ∈ rest, Apart q r
  := by
  intro q rest heq r hr
  obtain ⟨rfl, rfl⟩ | ⟨-, common, rfl, rfl⟩ := cons_eq_cons.mp heq
  · apply hp r hr
  · obtain rfl | hr := mem_cons.mp hr
    · apply hkeeps.symm
      apply hp q (mem_cons_self q common)
    · apply hm q common rfl r hr

theorem holds_start {s : σ} (hstart : sys.Start s m p) (hholds : Holds Shared Each Apart ⟨s, m⟩) :
  Holds Shared Each Apart ⟨s, p ::ₘ m⟩
  := by
  obtain ⟨heach, hapart⟩ := hkeeps.start s m p hstart hholds.shared hholds.each
  constructor
  case shared => apply hholds.shared
  case each =>
    intro q hq
    obtain rfl | hq := mem_cons.mp hq
    · apply heach
    · apply hholds.each q hq
  case apart => apply hkeeps.apart_cons hapart hholds.apart

theorem holds_move {s s' : σ} {p' : Option π} (hmove : sys.Move s m p s' p')
    (hholds : Holds Shared Each Apart ⟨s, p ::ₘ m⟩) :
  Holds Shared Each Apart ⟨s', Pool.rejoin m p'⟩
  := by
  have heach : Each s p := hholds.each p (mem_cons_self p m)
  have hoths : ∀ q ∈ m, Each s q := fun q hq => hholds.each q (mem_cons_of_mem hq)
  have hapart : ∀ q ∈ m, Apart p q := hholds.apart p m rfl
  have hrest : ∀ q rest, m = q ::ₘ rest → ∀ r ∈ rest, Apart q r := by
    intro q rest heq r hr
    apply hholds.apart q (p ::ₘ rest)
    · rw [heq, cons_swap]
    · apply mem_cons_of_mem hr
  constructor
  case shared => apply hkeeps.shared s m p s' p' hmove hholds.shared heach hoths
  case each =>
    intro q hq
    obtain rfl | hq := Pool.mem_rejoin.mp hq
    · apply hkeeps.each s m p s' q hmove hholds.shared heach hoths
    · apply hkeeps.others s m p s' p' hmove hholds.shared heach q hq (hoths q hq) (hapart q hq)
  case apart =>
    cases p' with
    | none => apply hrest
    | some p' =>
      apply hkeeps.apart_cons _ hrest
      intro q hq
      apply hkeeps.apart s m p s' p' hmove hholds.shared heach q hq (hoths q hq) (hapart q hq)

theorem holds_of_reaches {pool pool' : Pool σ π} (hreach : sys.Reaches pool pool')
    (hholds : Holds Shared Each Apart pool) :
  Holds Shared Each Apart pool'
  := by
  apply invariant _ _ hreach hholds
  · intro s m p hstart
    apply hkeeps.holds_start hstart
  · intro s m p s' p' hmove
    apply hkeeps.holds_move hmove

end Keeps

end PoolSystem
