import AaOS.Lib.Occurrence
import Mathlib.Data.List.Forall2

/-!
# Replacement of a word

Replacing a word puts another text between the pieces of a text, and changes nothing exactly when
the word is not met or is replaced by itself.  A word that does not overlap itself is met wherever
it stands, so texts that are joined by the word can be treated one by one.
-/

open List

namespace Text

variable {w r s : Text} {pieces : List Text}

/-! ### Pieces -/

theorem Pieces.replace_eq (hw : w ≠ []) (hpiece : Pieces w s pieces) (r : Text) :
  replace w r s = r.intercalate pieces
  := by
  rw [replace, replacen, (pieces_iff hw le_rfl).mp hpiece]

theorem Pieces.length_eq (hw : w ≠ []) (hpiece : Pieces w s pieces) :
  pieces.length = count w s + 1
  := by
  have hpos := hpiece.length_pos
  rw [count, (pieces_iff hw le_rfl).mp hpiece]
  omega

theorem intercalate_cons (r piece : Text) (hne : pieces ≠ []) :
  r.intercalate (piece :: pieces) = piece ++ (r ++ r.intercalate pieces)
  := by
  rw [← singleton_append, intercalate_append (cons_ne_nil _ _) hne]
  simp

theorem Pieces.ne_nil (hpiece : Pieces w s pieces) : pieces ≠ [] := by
  cases hpiece <;> simp

theorem Pieces.intercalate_eq (hpiece : Pieces w s pieces) :
  w.intercalate pieces = s
  := by
  induction hpiece with
  | last => simp
  | found _ hrest ih => rw [intercalate_cons _ _ hrest.ne_nil, ih, append_assoc]

theorem length_intercalate (r : Text) (hne : pieces ≠ []) :
  (r.intercalate pieces).length = (pieces.map length).sum + (pieces.length - 1) * r.length
  := by
  induction pieces with
  | nil => contradiction
  | cons piece pieces ih =>
    rcases pieces with _ | ⟨piece', pieces⟩
    · simp
    · rw [intercalate_cons _ _ (cons_ne_nil _ _), length_append, length_append,
        ih (cons_ne_nil _ _)]
      simp only [map_cons, sum_cons, length_cons, Nat.add_sub_cancel, Nat.add_mul, Nat.one_mul]
      omega

theorem length_replace (hw : w ≠ []) (r s : Text) :
  (replace w r s).length + count w s * w.length = s.length + count w s * r.length
  := by
  obtain ⟨pieces, hpiece, hlen, hrep⟩ := exists_pieces hw r s
  have hs := congrArg length hpiece.intercalate_eq
  rw [length_intercalate _ hpiece.ne_nil, hlen, Nat.add_sub_cancel] at hs
  rw [hrep, length_intercalate _ hpiece.ne_nil, hlen, Nat.add_sub_cancel]
  omega

theorem replace_eq_self_iff (hw : w ≠ []) :
  replace w r s = s ↔ r = w ∨ count w s = 0
  := by
  obtain ⟨pieces, hpiece, hlen, hrep⟩ := exists_pieces hw r s
  rw [hrep]
  constructor
  · intro heq
    cases hpiece with
    | last => exact .inr (by simpa using hlen)
    | found hfirst hrest =>
      rename_i before after rest
      left
      rw [intercalate_cons _ _ hrest.ne_nil, append_assoc, append_cancel_left_eq,
        ← hrest.replace_eq hw] at heq
      have hafter := length_replace hw r after
      have hsum := congrArg length heq
      rw [length_append, length_append] at hsum
      have hmul : (count w after + 1) * r.length = (count w after + 1) * w.length := by
        rw [Nat.add_mul, Nat.add_mul]
        omega
      apply (append_inj heq _).1
      apply Nat.eq_of_mul_eq_mul_left (Nat.succ_pos _) hmul
  · rintro (rfl | hzero)
    · apply hpiece.intercalate_eq
    · cases hpiece with
      | last => simp
      | found hfirst hrest =>
        have hpos := hrest.length_pos
        rw [length_cons] at hlen
        omega

/-! ### Words that do not overlap themselves -/

def NoOverlap (w : Text) : Prop :=
  ∀ s i j, OccursAt w s i → OccursAt w s j → i < j → i + w.length ≤ j

/-- A word whose first character does not come again does not overlap itself. -/
theorem noOverlap_cons {x : Char} {w : Text} (hx : x ∉ w) : NoOverlap (x :: w) := by
  intro s i j hi hj hlt
  by_contra hle
  obtain ⟨t, ht⟩ := hi
  obtain ⟨u, hu⟩ := hj
  obtain ⟨k, rfl⟩ := Nat.exists_eq_add_of_lt hlt
  have hdrop : s.drop (i + k + 1) = (x :: w ++ t).drop (k + 1) := by
    rw [ht, drop_drop]
    rfl
  rw [← hu] at hdrop
  have hlen : k < w.length := by
    rw [length_cons] at hle
    omega
  have hhead := congrArg head? hdrop
  rw [cons_append, cons_append, drop_succ_cons,
    drop_append_of_le_length (Nat.le_of_lt hlen), head?_cons, head?_append,
    head?_drop, getElem?_eq_getElem hlen] at hhead
  apply hx
  rw [Option.some_or, Option.some.injEq] at hhead
  rw [hhead]
  apply getElem_mem

variable {before after : Text} {i : Nat}

theorem OccursAt.lt_length (hw : w ≠ []) (hocc : OccursAt w s i) : i < s.length := by
  by_contra hle
  rw [OccursAt, drop_eq_nil_of_le (Nat.le_of_not_lt hle), prefix_nil] at hocc
  exact hw hocc

theorem OccursAt.append_right (hocc : OccursAt w s i) (t : Text) : OccursAt w (s ++ t) i := by
  rw [OccursAt, drop_append]
  apply hocc.trans
  apply prefix_append

theorem OccursAt.of_append {t : Text} (hocc : OccursAt w (s ++ t) i)
    (hle : i + w.length ≤ s.length) :
  OccursAt w s i
  := by
  rw [OccursAt, drop_append_of_le_length (by omega)] at hocc
  apply prefix_of_prefix_length_le hocc (prefix_append _ _)
  rw [length_drop]
  omega

theorem NoOverlap.occursAt_before (hno : NoOverlap w)
    (hocc : OccursAt w (before ++ w ++ after) i) (hlt : i < before.length) :
  OccursAt w before i
  := by
  have hle := hno _ _ _ hocc (occursAt_length before after) hlt
  rw [append_assoc] at hocc
  apply hocc.of_append hle

theorem Pieces.append (hno : NoOverlap w) {s' : Text} {pieces' : List Text}
    (hpiece : Pieces w s pieces) (hpiece' : Pieces w s' pieces') :
  Pieces w (s ++ w ++ s') (pieces ++ pieces')
  := by
  induction hpiece with
  | last hnone =>
    apply Pieces.found _ hpiece'
    intro i hlt hocc
    apply hnone i (hno.occursAt_before hocc hlt)
  | found hfirst hrest ih =>
    rename_i before after rest
    have hassoc : before ++ w ++ after ++ w ++ s' = before ++ w ++ (after ++ w ++ s') := by
      simp
    rw [hassoc]
    apply Pieces.found _ ih
    intro i hlt hocc
    apply hfirst i hlt
    rw [append_assoc]
    apply (hno.occursAt_before hocc hlt).append_right

section NoOverlap

variable (hw : w ≠ []) (hno : NoOverlap w)

include hw hno

theorem replace_append (r s t : Text) :
  replace w r (s ++ w ++ t) = replace w r s ++ (r ++ replace w r t)
  := by
  obtain ⟨pieces, hpiece, -, hrep⟩ := exists_pieces hw r s
  obtain ⟨pieces', hpiece', -, hrep'⟩ := exists_pieces hw r t
  rw [(hpiece.append hno hpiece').replace_eq hw, intercalate_append hpiece.ne_nil hpiece'.ne_nil,
    hrep, hrep']

theorem count_append (s t : Text) :
  count w (s ++ w ++ t) = count w s + 1 + count w t
  := by
  obtain ⟨pieces, hpiece, hlen, -⟩ := exists_pieces hw [] s
  obtain ⟨pieces', hpiece', hlen', -⟩ := exists_pieces hw [] t
  have hsum := (hpiece.append hno hpiece').length_eq hw
  rw [length_append, hlen, hlen'] at hsum
  omega

theorem replace_intercalate (r : Text) {texts : List Text} (hne : texts ≠ []) :
  replace w r (w.intercalate texts) = r.intercalate (texts.map (replace w r))
  := by
  induction texts with
  | nil => contradiction
  | cons s texts ih =>
    rcases texts with _ | ⟨s', texts⟩
    · simp
    · have hmap : (s' :: texts).map (replace w r) ≠ [] := by
        simp
      rw [intercalate_cons _ _ (cons_ne_nil _ _), ← append_assoc, replace_append hw hno,
        ih (cons_ne_nil _ _), ← intercalate_cons r _ hmap]
      rfl

theorem count_intercalate {texts : List Text} (hne : texts ≠ []) :
  count w (w.intercalate texts) + 1 = (texts.map (count w)).sum + texts.length
  := by
  induction texts with
  | nil => contradiction
  | cons s texts ih =>
    rcases texts with _ | ⟨s', texts⟩
    · simp
    · have hrest := ih (cons_ne_nil _ _)
      rw [intercalate_cons _ _ (cons_ne_nil _ _), ← append_assoc, count_append hw hno,
        map_cons, sum_cons, length_cons]
      omega

end NoOverlap

/-! ### Texts that are joined -/

variable {texts : List Text}

theorem eq_of_intercalate_eq {r : Text} {texts' : List Text}
    (hle : List.Forall₂ (fun s s' => s.length ≤ s'.length) texts texts')
    (heq : r.intercalate texts = r.intercalate texts') :
  texts = texts'
  := by
  have hlen : ∀ {texts texts' : List Text},
      List.Forall₂ (fun s s' => s.length ≤ s'.length) texts texts' →
      (r.intercalate texts).length ≤ (r.intercalate texts').length := by
    intro texts texts' hle
    induction hle with
    | nil => simp
    | cons hfirst hrest ih =>
      cases hrest with
      | nil => simpa using hfirst
      | cons =>
        rw [intercalate_cons _ _ (cons_ne_nil _ _), intercalate_cons _ _ (cons_ne_nil _ _)]
        simp only [length_append]
        omega
  induction hle with
  | nil => rfl
  | cons hfirst hrest ih =>
    have hle := hlen hrest
    cases hrest with
    | nil => simpa using heq
    | cons =>
      rw [intercalate_cons _ _ (cons_ne_nil _ _), intercalate_cons _ _ (cons_ne_nil _ _)]
        at heq
      have hsum := congrArg length heq
      simp only [length_append] at hsum
      obtain ⟨rfl, htail⟩ := append_inj heq (by omega)
      rw [ih (append_cancel_left htail)]

theorem map_replace_eq_self (hw : w ≠ [])
    (heq : r.intercalate (texts.map (replace w r)) = r.intercalate texts) :
  texts.map (replace w r) = texts
  := by
  have hlen := length_replace hw r
  obtain hle | hle := Nat.le_total r.length w.length
  · apply eq_of_intercalate_eq _ heq
    rw [List.forall₂_map_left_iff, List.forall₂_same]
    intro s _
    have hmul := Nat.mul_le_mul_left (count w s) hle
    have hs := hlen s
    omega
  · symm
    apply eq_of_intercalate_eq _ heq.symm
    rw [List.forall₂_map_right_iff, List.forall₂_same]
    intro s _
    have hmul := Nat.mul_le_mul_left (count w s) hle
    have hs := hlen s
    omega

theorem replace_intercalate_eq_iff (hw : w ≠ []) (hno : NoOverlap w) (hne : texts ≠ []) :
  replace w r (w.intercalate texts) = r.intercalate texts
    ↔ r = w ∨ count w (w.intercalate texts) + 1 = texts.length
  := by
  have hsame : texts.map (replace w r) = texts ↔ ∀ s ∈ texts, r = w ∨ count w s = 0 := by
    nth_rewrite 2 [← map_id texts]
    rw [map_inj_left]
    simp only [id_eq, replace_eq_self_iff hw]
  have hcount : count w (w.intercalate texts) + 1 = texts.length ↔ ∀ s ∈ texts, count w s = 0 := by
    rw [count_intercalate hw hno hne, Nat.add_eq_right, List.sum_eq_zero_iff_forall_eq_nat]
    simp
  rw [replace_intercalate hw hno r hne, hcount]
  constructor
  · intro heq
    by_cases hr : r = w
    · exact .inl hr
    · right
      intro s hs
      apply (hsame.mp (map_replace_eq_self hw heq) s hs).resolve_left hr
  · intro hcases
    rw [hsame.mpr]
    intro s hs
    obtain hr | hzero := hcases
    · exact .inl hr
    · exact .inr (hzero s hs)

end Text
