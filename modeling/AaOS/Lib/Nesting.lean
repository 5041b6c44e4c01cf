import Mathlib.Data.List.Basic

/-!
# Openings and closings

Two letters open and close.  A word is level when every beginning of it closes at most as much as
it opens, and the whole closes what it opens.  Whether a word closes `d` openings with its last
letter can be found out letter by letter.
-/

open List

namespace Nesting

variable {α : Type} [DecidableEq α] (o c : α)

/-- Every beginning of the word closes at most as much as it opens, and the word closes what it
opens. -/
structure Level (s : List α) : Prop where
  inside : ∀ t, t <+: s → t.count c ≤ t.count o
  closed : s.count c = s.count o

/-- The word closes `d` openings before it with its last letter. -/
structure Closes (d : Nat) (s : List α) : Prop where
  inside : ∀ t, t <+: s → t ≠ s → t.count c < d + t.count o
  closed : s.count c = d + s.count o

/-- Every beginning of the word opens more than it closes, and the word closes what it opens. -/
structure Enclosed (s : List α) : Prop where
  inside : ∀ t, t <+: s → t ≠ [] → t ≠ s → t.count c < t.count o
  closed : s.count c = s.count o

/-- The number of openings after a letter. -/
def depthAfter (d : Nat) (x : α) : Nat := if x = o then d + 1 else if x = c then d - 1 else d

variable {o c} {d : Nat} {s t : List α} {x : α}

/-! ### Letter by letter -/

theorem closes_zero_iff : Closes o c 0 s ↔ s = [] := by
  constructor
  · intro hclose
    by_contra hne
    have hlt := hclose.inside [] nil_prefix (Ne.symm hne)
    simp at hlt
  · rintro rfl
    constructor
    case inside =>
      intro t hpre hne
      exact absurd (prefix_nil.mp hpre) hne
    case closed => rfl

/-- A letter of a word that closes more than nothing. -/
theorem count_depthAfter (hoc : o ≠ c) (hd : 0 < d) (x : α) (t : List α) :
  ((x :: t).count c < d + (x :: t).count o ↔ t.count c < depthAfter o c d x + t.count o)
    ∧ ((x :: t).count c = d + (x :: t).count o ↔ t.count c = depthAfter o c d x + t.count o)
  := by
  unfold depthAfter
  by_cases ho : x = o
  · subst ho
    rw [if_pos rfl, count_cons_self, count_cons_of_ne hoc]
    omega
  · by_cases hc : x = c
    · subst hc
      rw [if_neg ho, if_pos rfl, count_cons_self, count_cons_of_ne ho]
      omega
    · rw [if_neg ho, if_neg hc, count_cons_of_ne ho, count_cons_of_ne hc]
      omega

theorem closes_cons_iff (hoc : o ≠ c) :
  Closes o c d (x :: s) ↔ 0 < d ∧ Closes o c (depthAfter o c d x) s
  := by
  constructor
  · intro hclose
    have hd : 0 < d := by
      simpa using hclose.inside [] nil_prefix (cons_ne_nil x s).symm
    refine ⟨hd, ?_, ?_⟩
    · intro t hpre hne
      apply (count_depthAfter hoc hd x t).1.mp
      apply hclose.inside
      · apply (prefix_cons_inj x).mpr hpre
      · intro heq
        exact hne (tail_eq_of_cons_eq heq)
    · apply (count_depthAfter hoc hd x s).2.mp hclose.closed
  · rintro ⟨hd, hclose⟩
    constructor
    case inside =>
      intro t hpre hne
      obtain rfl | ⟨t, rfl, hrest⟩ := prefix_cons_iff.mp hpre
      · simpa using hd
      · apply (count_depthAfter hoc hd x t).1.mpr
        apply hclose.inside t hrest
        rintro rfl
        exact hne rfl
    case closed => apply (count_depthAfter hoc hd x s).2.mpr hclose.closed

theorem Closes.exists_concat (hclose : Closes o c d s) (hd : 0 < d) : ∃ init, s = init ++ [c] := by
  obtain rfl | ⟨init, x, rfl⟩ := eq_nil_or_concat' s
  · have hclos := hclose.closed
    simp only [count_nil] at hclos
    omega
  · use init
    by_contra hne
    have hx : x ≠ c := by
      rintro rfl
      exact hne rfl
    have hlt := hclose.inside init (prefix_append init [x]) (by simp)
    have hclos := hclose.closed
    rw [count_append, count_append, count_cons_of_ne hx, count_nil] at hclos
    omega

theorem enclosed_cons_iff (hoc : o ≠ c) : Enclosed o c (o :: s) ↔ Closes o c 1 s := by
  constructor
  · intro henc
    constructor
    case inside =>
      intro t hpre hne
      have hlt := henc.inside (o :: t) ((prefix_cons_inj o).mpr hpre)
        (cons_ne_nil o t) (by simpa using hne)
      rw [count_cons_self, count_cons_of_ne hoc] at hlt
      omega
    case closed =>
      have hclos := henc.closed
      rw [count_cons_self, count_cons_of_ne hoc] at hclos
      omega
  · intro hclose
    constructor
    case inside =>
      intro t hpre hnil hne
      obtain rfl | ⟨t, rfl, hrest⟩ := prefix_cons_iff.mp hpre
      · exact absurd rfl hnil
      · have hlt := hclose.inside t hrest (by simpa using hne)
        rw [count_cons_self, count_cons_of_ne hoc]
        omega
    case closed =>
      rw [count_cons_self, count_cons_of_ne hoc, hclose.closed]
      omega

/-! ### Level words -/

theorem level_of_not_mem (ho : o ∉ s) (hc : c ∉ s) : Level o c s := by
  constructor
  case inside =>
    intro t hpre
    have hzero : t.count c = 0 := by
      apply count_eq_zero.mpr
      intro hmem
      exact hc (hpre.subset hmem)
    omega
  case closed => rw [count_eq_zero.mpr ho, count_eq_zero.mpr hc]

theorem Level.append (hs : Level o c s) (ht : Level o c t) : Level o c (s ++ t) := by
  constructor
  case inside =>
    intro r hpre
    obtain hbef | ⟨u, rfl⟩ := prefix_or_prefix_of_prefix hpre (prefix_append s t)
    · apply hs.inside r hbef
    · rw [count_append, count_append, hs.closed]
      apply Nat.add_le_add_left
      apply ht.inside u ((prefix_append_right_inj s).mp hpre)
  case closed => rw [count_append, count_append, hs.closed, ht.closed]

theorem Level.enclosed (hoc : o ≠ c) (hs : Level o c s) : Enclosed o c (o :: (s ++ [c])) := by
  apply (enclosed_cons_iff hoc).mpr
  constructor
  case inside =>
    intro t hpre hne
    obtain rfl | hpre := prefix_concat_iff.mp hpre
    · exact absurd rfl hne
    · have hle := hs.inside t hpre
      omega
  case closed =>
    rw [count_append, count_append, count_singleton_self, hs.closed,
      count_cons_of_ne hoc.symm, count_nil]
    omega

theorem Enclosed.level (hs : Enclosed o c s) : Level o c s := by
  constructor
  case inside =>
    intro t hpre
    by_cases hnil : t = []
    · simp [hnil]
    · by_cases heq : t = s
      · rw [heq]
        apply Nat.le_of_eq hs.closed
      · apply Nat.le_of_lt (hs.inside t hpre hnil heq)
  case closed => apply hs.closed

end Nesting
