import Mathlib.Algebra.Order.Ring.Nat
import Mathlib.Data.List.DropRight
import Mathlib.Data.List.Basic

/-!
# Texts

A text is a list of characters.  The operations are those of a string library:
white space and trimming, the suffix and prefix a text may be stripped of, the
occurrences of a word, and splitting at a separator.  `splitOn` and `intercalate`
are the ones of the list library.
-/

open List

/-- A text, as the list of its characters. -/
abbrev Text : Type := List Char

/-- A string stands for the text of its characters. -/
instance : Coe String Text := ⟨String.toList⟩

instance : LawfulBEq Text := List.instLawfulBEq

namespace Text

/-- The characters with the Unicode property `White_Space`. -/
def isWhitespace (c : Char) : Bool :=
  (0x09 ≤ c.toNat && c.toNat ≤ 0x0d) || c.toNat = 0x20 || c.toNat = 0x85 || c.toNat = 0xa0
    || c.toNat = 0x1680 || (0x2000 ≤ c.toNat && c.toNat ≤ 0x200a) || c.toNat = 0x2028
    || c.toNat = 0x2029 || c.toNat = 0x202f || c.toNat = 0x205f || c.toNat = 0x3000

def trimEnd (s : Text) : Text := s.rdropWhile isWhitespace

def trim (s : Text) : Text := trimEnd (s.dropWhile isWhitespace)

def stripSuffix (c : Char) (s : Text) : Option Text :=
  if s.getLast? = some c then some s.dropLast else none

/-- The text after the first word `w`, if `s` starts with `w`. -/
def stripPrefix (w s : Text) : Option Text :=
  if w.isPrefixOf s then some (s.drop w.length) else none

/-- A text without the leading and trailing characters that satisfy `p`. -/
def trimMatches (p : Char → Bool) (s : Text) : Text := (s.dropWhile p).rdropWhile p

/-- The text after the last character `c`, or the whole text if there is none. -/
def afterLast (c : Char) (s : Text) : Text := s.rtakeWhile (· ≠ c)

/-- The number of bytes of the UTF-8 encoding of a text. -/
def utf8Len (s : Text) : Nat := (s.map Char.utf8Size).sum

/-- The texts before and after the first occurrence of the word `w`, if there is one. -/
def splitFirst (w : Text) : Text → Option (Text × Text)
  | [] => if w = [] then some ([], []) else none
  | c :: s =>
    if w.isPrefixOf (c :: s) then some ([], (c :: s).drop w.length)
    else (splitFirst w s).map (fun (before, after) => (c :: before, after))

/-- The position of the first occurrence of the word `w`, if there is one. -/
def find (w s : Text) : Option Nat := (splitFirst w s).map (fun (before, _) => before.length)

def splitMany (w : Text) : Nat → Text → List Text
  | 0, s => [s]
  | n + 1, s =>
    match splitFirst w s with
    | none => [s]
    | some (before, after) => before :: splitMany w n after

/-- The number of occurrences of a non-empty word that do not overlap. -/
def count (w s : Text) : Nat := (splitMany w s.length s).length - 1

def replacen (w r : Text) (n : Nat) (s : Text) : Text := r.intercalate (splitMany w n s)

/-- The text with all occurrences of a non-empty word replaced. -/
def replace (w r s : Text) : Text := replacen w r s.length s

/-- The text as a line, with its end. -/
def line (s : Text) : Text := s ++ ['\n']

/-- The lines, ended by a line feed, possibly after a carriage return; the last one may have no end.
-/
def lines (s : Text) : List Text :=
  let parts := s.splitOn '\n'
  parts.dropLast.map (fun line => (stripSuffix '\r' line).getD line)
    ++ parts.getLast?.toList.filter (fun line => line ≠ [])

example :
  count "aa" "baaaab" = 2
    ∧ replace "aa" "c" "baaaab" = "bccb"
  := by
  decide

variable {p : Char → Prop}

theorem forall_mem_of_all [DecidablePred p] {s : Text} (hall : s.all (p ·) = true) :
  ∀ c ∈ s, p c
  := by
  simpa using hall

/-! ### Stripping -/

variable {s : Text}

theorem stripPrefix_append (w s : Text) :
  stripPrefix w (w ++ s) = some s
  := by
  simp [stripPrefix]

theorem stripSuffix_eq_some {c : Char} {t : Text} :
  stripSuffix c s = some t ↔ s = t ++ [c]
  := by
  constructor
  · intro h
    unfold stripSuffix at h
    split at h
    · rename_i hlast
      obtain ⟨l, rfl⟩ := getLast?_eq_some_iff.mp hlast
      simpa using h
    · cases h
  · rintro rfl
    simp [stripSuffix]

@[simp]
theorem stripSuffix_append (c : Char) (s : Text) :
  stripSuffix c (s ++ [c]) = some s
  := stripSuffix_eq_some.mpr rfl

/-! ### Trimming -/

theorem trimEnd_append_of_not_whitespace {c : Char} (h : isWhitespace c = false) (t : Text) :
  trimEnd (s ++ c :: t) = s ++ c :: trimEnd t
  := by
  induction t using reverseRecOn with
  | nil =>
    have hr := rdropWhile_concat_neg isWhitespace s c (by simp [h])
    simpa [trimEnd] using hr
  | append_singleton t d ih =>
    rw [trimEnd, ← cons_append, ← append_assoc]
    by_cases hd : isWhitespace d = true
    · rw [rdropWhile_concat_pos _ _ _ hd, ← trimEnd, ih]
      rw [trimEnd, trimEnd, rdropWhile_concat_pos _ _ _ hd]
    · rw [rdropWhile_concat_neg _ _ _ hd]
      rw [trimEnd, rdropWhile_concat_neg _ _ _ hd]
      simp

theorem trim_eq_nil_iff :
  trim s = [] ↔ ∀ c ∈ s, isWhitespace c = true
  := by
  unfold trim trimEnd
  rw [rdropWhile_eq_nil_iff]
  constructor
  · intro h c hc
    by_contra hw
    have hne : s.dropWhile isWhitespace ≠ [] := by
      intro hnil
      exact hw (dropWhile_eq_nil_iff.mp hnil c hc)
    have hhead := head_dropWhile_not isWhitespace hne
    rw [h _ (head_mem hne)] at hhead
    cases hhead
  · intro h c hc
    exact h c ((dropWhile_sublist isWhitespace).subset hc)

theorem trim_eq_trimEnd (hne : s ≠ []) (hhead : isWhitespace (s.head hne) = false) :
  trim s = trimEnd s
  := by
  rw [trim]
  congr 1
  cases s with
  | nil => contradiction
  | cons c s => simpa using hhead

theorem trim_append (hne : s ≠ []) (hhead : isWhitespace (s.head hne) = false)
    (hlast : isWhitespace (s.getLast hne) = false) (t : Text) :
  trim (s ++ t) = s ++ trimEnd t
  := by
  have hne' : s ++ t ≠ [] := append_ne_nil_of_left_ne_nil hne t
  have hhead' : isWhitespace ((s ++ t).head hne') = false := by
    rwa [head_append_of_ne_nil hne]
  rw [trim_eq_trimEnd hne' hhead']
  nth_rewrite 1 [← dropLast_append_getLast hne]
  rw [append_assoc, singleton_append, trimEnd_append_of_not_whitespace hlast]
  nth_rewrite 3 [← dropLast_append_getLast hne]
  simp

theorem trim_eq_self (hne : s ≠ []) (hhead : isWhitespace (s.head hne) = false)
    (hlast : isWhitespace (s.getLast hne) = false) :
  trim s = s
  := by
  have htrim := trim_append hne hhead hlast []
  rw [append_nil] at htrim
  rw [htrim]
  exact append_nil s

theorem not_whitespace_of_trim_eq (hne : s ≠ []) (htrim : trim s = s) :
  isWhitespace (s.head hne) = false ∧ isWhitespace (s.getLast hne) = false
  := by
  have hdrop : s.dropWhile isWhitespace = s := by
    apply (dropWhile_suffix isWhitespace).eq_of_length_le
    have hle := (List.rdropWhile_prefix isWhitespace (s.dropWhile isWhitespace)).length_le
    rwa [← trimEnd, ← trim, htrim] at hle
  constructor
  · have hhead := head_dropWhile_not isWhitespace (by rwa [hdrop])
    simpa [hdrop] using hhead
  · have htrimEn : s.rdropWhile isWhitespace = s := by rwa [trim, hdrop] at htrim
    have hlast := rdropWhile_last_not isWhitespace s (by rwa [htrimEn])
    simpa [htrimEn] using hlast

theorem exists_trimEnd_append (s : Text) :
  ∃ w, s = trimEnd s ++ w ∧ ∀ c ∈ w, isWhitespace c = true
  := by
  use s.rtakeWhile isWhitespace
  constructor
  · rw [trimEnd, rdropWhile_append_rtakeWhile]
  · intro c hc
    exact mem_rtakeWhile_imp hc

/-! ### Splitting -/

variable {x : Char}

theorem forall_mem_splitOn_iff (s : Text) :
  (∀ w ∈ s.splitOn x, ∀ c ∈ w, p c) ↔ ∀ c ∈ s, c = x ∨ p c
  := by
  induction s with
  | nil => simp
  | cons d s ih =>
    rw [splitOn_cons_eq_if_modifyHead]
    obtain ⟨w, ws, hws⟩ := exists_cons_of_ne_nil (splitOn_ne_nil x s)
    rw [hws] at ih ⊢
    by_cases hd : d = x
    · subst hd
      simpa using ih
    · simp only [beq_iff_eq, hd, if_false, modifyHead_cons, List.forall_mem_cons] at ih ⊢
      rw [← ih]
      tauto

theorem splitOn_append (h : x ∉ s) (t : Text) :
  (s ++ t).splitOn x = (t.splitOn x).modifyHead (s ++ ·)
  := by
  obtain ⟨w, ws, hws⟩ := exists_cons_of_ne_nil (splitOn_ne_nil x t)
  induction s with
  | nil => simp [hws]
  | cons c s ih =>
    rw [mem_cons, not_or] at h
    rw [cons_append, splitOn_cons_eq_if_modifyHead, ih h.2, hws]
    simp [Ne.symm h.1]

theorem exists_splitOn_append {t : Text} (ht : x ∉ t) (s : Text) :
  ∃ init last, s.splitOn x = init ++ [last] ∧ (s ++ t).splitOn x = init ++ [last ++ t]
  := by
  induction s with
  | nil => exact ⟨[], [], rfl, splitOn_eq_singleton ht⟩
  | cons c s ih =>
    obtain ⟨init, last, hs, hst⟩ := ih
    rw [cons_append, splitOn_cons_eq_if_modifyHead, splitOn_cons_eq_if_modifyHead, hs, hst]
    by_cases hc : (c == x) = true
    · rw [if_pos hc, if_pos hc]
      exact ⟨[] :: init, last, rfl, rfl⟩
    · rw [if_neg hc, if_neg hc]
      cases init with
      | nil => exact ⟨[], c :: last, rfl, rfl⟩
      | cons piece init => exact ⟨(c :: piece) :: init, last, rfl, rfl⟩

theorem forall_mem_tail_splitOn_iff :
  (∀ w ∈ (s.splitOn x).tail, ∀ c ∈ w, p c) ↔ ∀ c ∈ s.dropWhile (· ≠ x), c = x ∨ p c
  := by
  induction s with
  | nil => simp
  | cons d s ih =>
    obtain ⟨w, ws, hws⟩ := exists_cons_of_ne_nil (splitOn_ne_nil x s)
    rw [splitOn_cons_eq_if_modifyHead]
    by_cases hd : d = x
    · have hall := forall_mem_splitOn_iff (x := x) (s := s) (p := p)
      simp [hd, hall]
    · rw [hws] at ih ⊢
      simpa [hd] using ih

theorem eq_of_splitFirst_eq_some {w before after : Text}
    (h : splitFirst w s = some (before, after)) :
  s = before ++ w ++ after
  := by
  induction s generalizing before with
  | nil =>
    rw [splitFirst] at h
    split_ifs at h with hw
    cases h
    simp [hw]
  | cons c s ih =>
    rw [splitFirst] at h
    split_ifs at h with hw
    · cases h
      obtain ⟨t, ht⟩ := isPrefixOf_iff_prefix.mp hw
      simp [← ht]
    · obtain ⟨⟨b, a⟩, hsplit, heq⟩ := Option.map_eq_some_iff.mp h
      cases heq
      simp [ih hsplit]

theorem splitFirst_append (h : x ∉ s) (w t : Text) :
  splitFirst (x :: w) (s ++ x :: (w ++ t)) = some (s, t)
  := by
  induction s with
  | nil => simp [splitFirst, isPrefixOf_iff_prefix]
  | cons c s ih =>
    rw [mem_cons, not_or] at h
    rw [cons_append, splitFirst, ih h.2]
    simp [h.1]

theorem splitFirst_singleton_iff {before after : Text} :
  splitFirst [x] s = some (before, after) ↔ s = before ++ x :: after ∧ x ∉ before
  := by
  constructor
  · intro hsplit
    have hmem : x ∈ s := by
      rw [eq_of_splitFirst_eq_some hsplit]
      simp
    obtain ⟨before', after', rfl, hbef⟩ := eq_append_cons_of_mem hmem
    have hsplit' := splitFirst_append hbef [] after'
    rw [nil_append, hsplit] at hsplit'
    cases hsplit'
    exact ⟨rfl, hbef⟩
  · rintro ⟨rfl, hbef⟩
    apply splitFirst_append hbef []

theorem splitFirst_of_not_mem (h : x ∉ s) :
  splitFirst [x] s = none
  := by
  cases hsplit : splitFirst [x] s with
  | none => rfl
  | some parts =>
    rw [eq_of_splitFirst_eq_some hsplit] at h
    simp at h

theorem splitMany_ne_nil (w : Text) (n : Nat) (s : Text) :
  splitMany w n s ≠ []
  := by
  cases n with
  | zero => simp [splitMany]
  | succ n =>
    rw [splitMany]
    split <;> simp

variable {r : Text}

theorem flatMap_of_not_mem (h : x ∉ s) :
  s.flatMap (fun c => if c = x then r else [c]) = s
  := by
  induction s with
  | nil => rfl
  | cons c s ih =>
    rw [mem_cons, not_or] at h
    simp [Ne.symm h.1, ih h.2]

theorem replace_singleton (x : Char) (r s : Text) :
  replace [x] r s = s.flatMap (fun c => if c = x then r else [c])
  := by
  have hmany : ∀ (n : Nat) (s : Text), s.length ≤ n →
      r.intercalate (splitMany [x] n s) = s.flatMap (fun c => if c = x then r else [c]) := by
    intro n
    induction n with
    | zero =>
      intro s hs
      obtain rfl : s = [] := by simpa using hs
      simp [splitMany]
    | succ n ih =>
      intro s hs
      by_cases hx : x ∈ s
      · obtain ⟨before, after, rfl, hbef⟩ := eq_append_cons_of_mem hx
        have hafter : after.length ≤ n := by
          simp only [length_append, length_cons] at hs
          omega
        have hsplit := splitFirst_append hbef [] after
        obtain ⟨w, ws, hws⟩ := exists_cons_of_ne_nil (splitMany_ne_nil [x] n after)
        have hrest := ih after hafter
        rw [nil_append] at hsplit
        rw [splitMany, hsplit]
        simp only [flatMap_append, flatMap_of_not_mem hbef, ← hrest, hws, flatMap_cons, if_true]
        simp
      · rw [splitMany, splitFirst_of_not_mem hx, flatMap_of_not_mem hx]
        simp
  apply hmany
  apply Nat.le_refl

theorem intercalate_append {pieces pieces' : List Text} (hne : pieces ≠ []) (hne' : pieces' ≠ []) :
  r.intercalate (pieces ++ pieces') = r.intercalate pieces ++ (r ++ r.intercalate pieces')
  := by
  induction pieces with
  | nil => contradiction
  | cons piece pieces ih =>
    cases pieces with
    | nil =>
      cases pieces' with
      | nil => contradiction
      | cons => simp
    | cons piece' pieces => simpa using ih (cons_ne_nil _ _)

theorem intercalate_cons_eq_append_iff {piece : Text} {pieces rest : List Text}
    (hne : pieces ≠ []) :
  r.intercalate (piece :: rest) = r.intercalate (pieces ++ rest) ↔ piece = r.intercalate pieces
  := by
  rcases rest with _ | ⟨piece', rest⟩
  · simp
  · rw [← singleton_append, intercalate_append (by simp) (by simp),
      intercalate_append hne (by simp), append_cancel_right_eq]
    simp

theorem afterLast_of_not_mem (h : x ∉ s) :
  afterLast x s = s
  := by
  rw [afterLast, rtakeWhile_eq_self_iff]
  intro c hc
  simp only [ne_eq, decide_eq_true_eq]
  rintro rfl
  exact h hc

end Text
