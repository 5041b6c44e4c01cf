import Mathlib.Data.List.Basic

/-!
# Histories

A history is the list of the steps that were taken, the earliest first.  Whether a step is
as expected may depend on the steps before it.
-/

open List

variable {α : Type}

theorem concat_eq_append_cons {steps before after : List α} {a b : α}
    (heq : steps ++ [a] = before ++ b :: after) :
  (steps = before ∧ a = b ∧ after = [])
    ∨ ∃ after', after = after' ++ [a] ∧ steps = before ++ b :: after'
  := by
  obtain rfl | ⟨after', last, rfl⟩ := eq_nil_or_concat after
  · obtain ⟨hsteps, hlast⟩ := append_inj' heq rfl
    left
    exact ⟨hsteps, singleton_inj.mp hlast, rfl⟩
  · rw [concat_eq_append, ← cons_append, ← append_assoc] at heq
    obtain ⟨hsteps, hlast⟩ := append_inj' heq rfl
    right
    use after'
    rw [concat_eq_append, hlast]
    exact ⟨rfl, hsteps⟩

theorem mem_filterMap_of_iff {β : Type} {read : α → Option β} {a : α} {b : β}
    (hread : ∀ step, read step = some b ↔ step = a) (steps : List α) :
  b ∈ steps.filterMap read ↔ a ∈ steps
  := by
  rw [mem_filterMap]
  constructor
  · rintro ⟨step, hmem, hstep⟩
    rw [← (hread step).mp hstep]
    apply hmem
  · intro hmem
    use a, hmem
    apply (hread a).mpr rfl

theorem not_any_getElem?_takeWhile (p : α → Bool) (l : List α) :
  ¬ (l[(l.takeWhile p).length]?).any p = true
  := by
  induction l with
  | nil => simp
  | cons a l ih =>
    cases ha : p a with
    | false => simp [ha]
    | true =>
      rw [takeWhile_cons_of_pos ha, length_cons, getElem?_cons_succ]
      apply ih

theorem all_take_of_dropWhile_drop_eq {p : α → Bool} {l : List α} {n : Nat}
    (heq : (l.drop n).dropWhile p = l.dropWhile p) :
  ∀ a ∈ l.take n, p a = true
  := by
  induction l generalizing n with
  | nil => simp
  | cons a l ih =>
    cases n with
    | zero => simp
    | succ n =>
      cases ha : p a with
      | true =>
        rw [drop_succ_cons, dropWhile_cons_of_pos ha] at heq
        intro b hb
        rw [take_succ_cons, mem_cons] at hb
        obtain rfl | hb := hb
        · apply ha
        · apply ih heq b hb
      | false =>
        rw [drop_succ_cons, dropWhile_cons_of_neg (by simp [ha])] at heq
        have hlen := (dropWhile_sublist p (l := l.drop n)).length_le
        rw [heq, length_cons, length_drop] at hlen
        omega

/-- Every step is as expected after the steps before it. -/
def EachAfter (P : List α → α → Prop) (steps : List α) : Prop :=
  ∀ before a after, steps = before ++ a :: after → P before a

namespace EachAfter

variable {P : List α → α → Prop} {steps more : List α}

theorem nil :
  EachAfter P []
  := by
  intro before a after heq
  simp at heq

theorem snoc (hsteps : EachAfter P steps) {a : α} (ha : P steps a) :
  EachAfter P (steps ++ [a])
  := by
  intro before b after heq
  obtain ⟨rfl, rfl, -⟩ | ⟨after', -, hsteps'⟩ := concat_eq_append_cons heq
  · apply ha
  · apply hsteps before b after' hsteps'

theorem of_append (hsteps : EachAfter P (steps ++ more)) : EachAfter P steps := by
  rintro before a after rfl
  apply hsteps before a (after ++ more)
  rw [append_assoc, cons_append]

theorem next {a : α} (hsteps : EachAfter P (steps ++ a :: more)) :
  P steps a
  := hsteps steps a more rfl

end EachAfter
