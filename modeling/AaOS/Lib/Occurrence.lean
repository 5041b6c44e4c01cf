import AaOS.Lib.Text

/-!
# Occurrences of a word

The occurrences of a word that are met from left to right, each after the end of the one before,
cut a text into pieces (`Pieces`) in one way; `count` and `replace` are their number and their
replacement.  They need not be all, for a word may overlap itself.
-/

open List

namespace Text

/-- The word begins at the position. -/
def OccursAt (w s : Text) (i : Nat) : Prop := w <+: s.drop i

/-- The pieces of a text between the occurrences of a word that are met from left to right. -/
inductive Pieces (w : Text) : Text → List Text → Prop
  | last {s} (hnone : ∀ i, ¬ OccursAt w s i) : Pieces w s [s]
  | found {before : Text} {after pieces}
      (hfirst : ∀ i < before.length, ¬ OccursAt w (before ++ w ++ after) i)
      (hrest : Pieces w after pieces) : Pieces w (before ++ w ++ after) (before :: pieces)

/-- The word occurs once at most, or at two positions where it does not overlap itself. -/
def Separate (w s : Text) : Prop :=
  (∀ i j, OccursAt w s i → OccursAt w s j → i = j)
    ∨ ∃ i j, OccursAt w s i ∧ OccursAt w s j ∧ i + w.length ≤ j

variable {w s before after : Text} {i : Nat}

theorem occursAt_length (before after : Text) :
  OccursAt w (before ++ w ++ after) before.length
  := by
  rw [OccursAt, append_assoc, drop_left]
  apply prefix_append

theorem occursAt_after :
  OccursAt w (before ++ w ++ after) (before.length + w.length + i) ↔ OccursAt w after i
  := by
  rw [← length_append, OccursAt, drop_length_add_append]
  rfl

theorem not_occursAt_nil (hw : w ≠ []) (i : Nat) : ¬ OccursAt w [] i := by
  rw [OccursAt, drop_nil, prefix_nil]
  apply hw

/-! ### The first occurrence -/

theorem splitFirst_eq_none_iff (hw : w ≠ []) :
  splitFirst w s = none ↔ ∀ i, ¬ OccursAt w s i
  := by
  induction s with
  | nil => simp [splitFirst, hw, not_occursAt_nil hw]
  | cons c s ih =>
    rw [splitFirst]
    split_ifs with hhere
    · simp only [false_iff, not_forall, not_not]
      use 0
      apply isPrefixOf_iff_prefix.mp hhere
    · rw [Option.map_eq_none_iff, ih]
      constructor
      · rintro hnone (_ | i)
        · intro hocc
          apply hhere (List.isPrefixOf_iff_prefix.mpr hocc)
        · apply hnone i
      · intro hnone i
        apply hnone (i + 1)

theorem not_occursAt_of_splitFirst (hsplit : splitFirst w s = some (before, after))
    (hlt : i < before.length) :
  ¬ OccursAt w s i
  := by
  induction s generalizing before i with
  | nil =>
    rw [splitFirst] at hsplit
    split_ifs at hsplit
    cases hsplit
    cases hlt
  | cons c s ih =>
    rw [splitFirst] at hsplit
    split_ifs at hsplit with hhere
    · cases hsplit
      cases hlt
    · obtain ⟨⟨before', after'⟩, hsplit', heq⟩ := Option.map_eq_some_iff.mp hsplit
      cases heq
      obtain _ | i := i
      · intro hocc
        apply hhere (List.isPrefixOf_iff_prefix.mpr hocc)
      · apply ih hsplit' (Nat.lt_of_succ_lt_succ hlt)

theorem splitFirst_append_append (hw : w ≠ [])
    (hfirst : ∀ i < before.length, ¬ OccursAt w (before ++ w ++ after) i) :
  splitFirst w (before ++ w ++ after) = some (before, after)
  := by
  rcases hsplit : splitFirst w (before ++ w ++ after) with _ | ⟨before', after'⟩
  · exact absurd (occursAt_length before after) ((splitFirst_eq_none_iff hw).mp hsplit _)
  · have heq := eq_of_splitFirst_eq_some hsplit
    have hlen : before.length = before'.length := by
      apply Nat.le_antisymm
      · by_contra hlt
        apply hfirst before'.length (Nat.lt_of_not_le hlt)
        rw [heq]
        apply occursAt_length
      · by_contra hlt
        apply not_occursAt_of_splitFirst hsplit (Nat.lt_of_not_le hlt)
        apply occursAt_length
    rw [append_assoc, append_assoc] at heq
    obtain ⟨rfl, hrest⟩ := append_inj heq hlen
    rw [append_cancel_left hrest]

/-! ### Pieces -/

theorem pieces_iff (hw : w ≠ []) {pieces : List Text} {n : Nat} (hlen : s.length ≤ n) :
  Pieces w s pieces ↔ splitMany w n s = pieces
  := by
  constructor
  · intro hpiece
    induction hpiece generalizing n with
    | last hnone =>
      cases n with
      | zero => rfl
      | succ n => rw [splitMany, (splitFirst_eq_none_iff hw).mpr hnone]
    | found hfirst hrest ih =>
      have hpos := length_pos_iff.mpr hw
      rw [length_append, length_append] at hlen
      obtain ⟨n, rfl⟩ := Nat.exists_eq_succ_of_ne_zero (n := n) (by omega)
      rw [splitMany, splitFirst_append_append hw hfirst]
      dsimp only
      rw [ih (by omega)]
  · rintro rfl
    induction n generalizing s with
    | zero =>
      obtain rfl := length_eq_zero_iff.mp (Nat.le_zero.mp hlen)
      apply Pieces.last (not_occursAt_nil hw)
    | succ n ih =>
      rw [splitMany]
      split
      · rename_i hnone
        apply Pieces.last ((splitFirst_eq_none_iff hw).mp hnone)
      · rename_i before after hsplit
        obtain rfl := eq_of_splitFirst_eq_some hsplit
        apply Pieces.found
        · intro i hlt
          apply not_occursAt_of_splitFirst hsplit hlt
        · apply ih
          have hpos := length_pos_iff.mpr hw
          rw [length_append, length_append] at hlen
          omega

theorem Pieces.length_pos {pieces : List Text} (hpiece : Pieces w s pieces) :
  0 < pieces.length
  := by
  cases hpiece <;> simp

variable (hw : w ≠ [])

include hw

theorem exists_pieces (r s : Text) :
  ∃ pieces, Pieces w s pieces ∧ pieces.length = count w s + 1
    ∧ replace w r s = r.intercalate pieces
  := by
  have hpiece : Pieces w s (splitMany w s.length s) := (pieces_iff hw le_rfl).mpr rfl
  have hpos := hpiece.length_pos
  refine ⟨_, hpiece, ?_, rfl⟩
  rw [count]
  omega

theorem count_of_splitFirst (hsplit : splitFirst w s = some (before, after)) :
  count w s = count w after + 1
  := by
  obtain ⟨pieces, hpiece, hlen, -⟩ := exists_pieces hw [] s
  obtain ⟨rest, hrest, hlen', -⟩ := exists_pieces hw [] after
  have hfound : Pieces w s (before :: rest) := by
    obtain rfl := eq_of_splitFirst_eq_some hsplit
    apply Pieces.found _ hrest
    intro i hlt
    apply not_occursAt_of_splitFirst hsplit hlt
  have heq := ((pieces_iff hw le_rfl).mp hpiece).symm.trans ((pieces_iff hw le_rfl).mp hfound)
  rw [heq, length_cons, hlen'] at hlen
  omega

/-! ### Single occurrences -/

theorem count_eq_zero_iff : count w s = 0 ↔ ∀ i, ¬ OccursAt w s i := by
  obtain ⟨pieces, hpiece, hlen, -⟩ := exists_pieces hw [] s
  constructor
  · intro hzero
    cases hpiece with
    | last hnone => apply hnone
    | found hfirst hrest =>
      have hpos := hrest.length_pos
      rw [length_cons] at hlen
      omega
  · intro hnone
    cases hpiece with
    | last => simpa using hlen
    | found => exact absurd (occursAt_length _ _) (hnone _)

theorem exists_first_of_count_ne_zero (hcount : count w s ≠ 0) :
  ∃ before after, s = before ++ w ++ after
    ∧ (∀ i < before.length, ¬ OccursAt w s i) ∧ count w s = count w after + 1
    ∧ ∀ r, replacen w r 1 s = before ++ r ++ after
  := by
  obtain ⟨pieces, hpiece, hlen, -⟩ := exists_pieces hw [] s
  cases hpiece with
  | last => exact absurd (by simpa using hlen) hcount
  | found hfirst hrest =>
    rename_i before after pieces
    refine ⟨before, after, rfl, hfirst, ?_, ?_⟩
    · apply count_of_splitFirst hw (splitFirst_append_append hw hfirst)
    · intro r
      rw [replacen, splitMany, splitFirst_append_append hw hfirst]
      simp [splitMany, intercalate]

theorem one_lt_count_iff :
  1 < count w s ↔ ∃ i j, OccursAt w s i ∧ OccursAt w s j ∧ i + w.length ≤ j
  := by
  constructor
  · intro hcount
    obtain ⟨before, after, rfl, -, hrest, -⟩ :=
      exists_first_of_count_ne_zero hw (Nat.ne_of_gt (Nat.zero_lt_of_lt hcount))
    have hafter : ¬ ∀ i, ¬ OccursAt w after i := by
      rw [← count_eq_zero_iff hw]
      omega
    push Not at hafter
    obtain ⟨i, hocc⟩ := hafter
    use before.length, before.length + w.length + i
    exact ⟨occursAt_length before after, occursAt_after.mpr hocc, Nat.le_add_right _ _⟩
  · rintro ⟨i, j, hi, hj, hle⟩
    have hcount : count w s ≠ 0 := by
      intro hzero
      apply (count_eq_zero_iff hw).mp hzero i hi
    obtain ⟨before, after, rfl, hfirst, hrest, -⟩ := exists_first_of_count_ne_zero hw hcount
    have hbef : before.length ≤ i := by
      by_contra hlt
      apply hfirst i (Nat.lt_of_not_le hlt) hi
    obtain ⟨k, rfl⟩ := Nat.exists_eq_add_of_le ((Nat.add_le_add_right hbef _).trans hle)
    have hafter : count w after ≠ 0 := by
      intro hzero
      apply (count_eq_zero_iff hw).mp hzero k (occursAt_after.mp hj)
    omega

theorem Separate.eq_of_occursAt (hsep : Separate w s) (hcount : count w s = 1) {j : Nat}
    (hi : OccursAt w s i) (hj : OccursAt w s j) :
  i = j
  := by
  obtain huniq | htwo := hsep
  · apply huniq i j hi hj
  · have hmany := (one_lt_count_iff hw).mpr htwo
    omega

theorem count_eq_one_of_not_separate (hsep : ¬ Separate w s) :
  count w s = 1
  := by
  rw [Separate, not_or, ← one_lt_count_iff hw] at hsep
  obtain ⟨hmany, hle⟩ := hsep
  push Not at hmany
  obtain ⟨i, -, hi, -⟩ := hmany
  have hpos : count w s ≠ 0 := by
    intro hzero
    apply (count_eq_zero_iff hw).mp hzero i hi
  omega

end Text
