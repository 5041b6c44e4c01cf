import Mathlib.Data.List.Basic

/-!
# Broadcast channels

A broadcast channel keeps the last items that were sent, up to its capacity.  A receiver has a
position among the items.  A receiver that is behind the items that are kept is told how many it
has missed, and is moved to the oldest item that is left.
-/

open List

namespace Broadcast

variable {α : Type}

inductive Received (α : Type) where
  | lagged (missed : Nat)
  | empty
  | item (a : α)

/-- Receive from the items that were sent, at a position.  The position moves on. -/
def recv (capacity : Nat) (sent : List α) (next : Nat) : Received α × Nat :=
  if next + capacity < sent.length then
    (.lagged (sent.length - capacity - next), sent.length - capacity)
  else
    match sent[next]? with
    | none => (.empty, next)
    | some a => (.item a, next + 1)

/-- The items that a receiver can still receive. -/
def readable (capacity : Nat) (sent : List α) (next : Nat) : List α :=
  sent.drop (max next (sent.length - capacity))

variable {capacity : Nat} {sent : List α} {next : Nat}

theorem readable_subset : readable capacity sent next ⊆ sent := drop_subset _ _

theorem readable_eq_nil (hle : sent.length ≤ next) : readable capacity sent next = [] := by
  apply drop_of_length_le
  omega

/-- A receiver is moved, gets nothing, or gets the first item that it can receive. -/
theorem recv_cases (capacity : Nat) (sent : List α) (next : Nat) :
  (∃ missed, recv capacity sent next = (.lagged missed, sent.length - capacity)
      ∧ next < sent.length - capacity
      ∧ readable capacity sent (sent.length - capacity) = readable capacity sent next)
    ∨ (recv capacity sent next = (.empty, next) ∧ sent.length ≤ next)
    ∨ (∃ a, recv capacity sent next = (.item a, next + 1) ∧ next < sent.length
      ∧ readable capacity sent next = a :: readable capacity sent (next + 1))
  := by
  unfold recv
  split_ifs with hlag
  · left
    use sent.length - capacity - next, rfl, by omega
    unfold readable
    congr 1
    omega
  · right
    obtain hlt | hle := Nat.lt_or_ge next sent.length
    · right
      use sent[next]
      rw [getElem?_eq_getElem hlt]
      use rfl, hlt
      have hnext : max next (sent.length - capacity) = next := by omega
      have hnext' : max (next + 1) (sent.length - capacity) = next + 1 := by omega
      rw [readable, readable, hnext, hnext', drop_eq_getElem_cons hlt]
    · left
      rw [getElem?_eq_none hle]
      exact ⟨rfl, hle⟩

theorem readable_concat (hle : next ≤ sent.length) (a : α) :
  readable capacity (sent ++ [a]) next
    = (readable capacity sent next ++ [a]).drop
        ((readable capacity sent next).length + 1 - capacity)
  := by
  unfold readable
  rw [← drop_append_of_le_length (by omega), drop_drop, length_append,
    length_drop, length_singleton]
  congr 1
  omega

end Broadcast
