import Mathlib.Data.List.DropRight
import Mathlib.Data.List.Rotate

/-!
# Lists written round and round

The last `n` members of a list, and a list of cells that is read from a position on and around.
Writing the cell at the position and moving on takes off the first member and adds one at the end,
in the cells as in the last members.
-/

open List

namespace Ring

variable {α : Type*} {l : List α}

theorem rotate_set_succ {i : Nat} (hi : i < l.length) (a : α) :
  (l.set i a).rotate (i + 1) = (l.rotate i).tail ++ [a]
  := by
  have hset : i + 1 ≤ (l.set i a).length := by
    simpa using Nat.succ_le_of_lt hi
  have htake : (l.set i a).take (i + 1) = l.take i ++ [a] := by
    rw [take_succ_eq_append_getElem hset]
    simp [take_set_of_le]
  rw [rotate_eq_drop_append_take hset, rotate_eq_drop_append_take hi.le, htake,
    drop_set_of_lt (Nat.lt_succ_self i), drop_eq_getElem_cons hi, cons_append,
    tail_cons, append_assoc]

variable {n : Nat}

theorem rtake_of_length_le (h : l.length ≤ n) :
  l.rtake n = l
  := by
  simp [rtake, Nat.sub_eq_zero_of_le h]

theorem rtake_concat_of_le (hn : 0 < n) (h : n ≤ l.length) (a : α) :
  (l ++ [a]).rtake n = (l.rtake n).tail ++ [a]
  := by
  have hlen : (l ++ [a]).length - n = l.length - n + 1 := by
    rw [length_append, length_singleton]
    omega
  rw [rtake, hlen, drop_append_of_le_length (by omega), rtake, tail_drop]

end Ring
