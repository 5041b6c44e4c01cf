import AaOS.Lib.Replacement

/-!
# Templates

A template is a text in which names stand in braces, read as a list of characters and
tokens.  Replacing a name in braces in a filled template fills it further exactly when the name in
braces is met as often as the template has tokens with the name, or is replaced by itself.
-/

open List

inductive TemplatePiece where
  | literal (c : Char)
  | token (name : Text)
deriving DecidableEq

namespace Template

def braced (name : Text) : Text := '{' :: (name ++ ['}'])

/-- The name before the first closing brace and the pieces after it, without an opening brace or
token before. -/
def closeName : List TemplatePiece → Option (Text × List TemplatePiece)
  | .literal c :: pieces =>
    if c = '}' then some ([], pieces)
    else if c = '{' then none
    else (closeName pieces).map (fun (name, rest) => (c :: name, rest))
  | _ => none

/-- The pieces of a template. -/
def parse : Text → List TemplatePiece
  | [] => []
  | c :: s =>
    if c = '{' then
      match closeName (parse s) with
      | some (name, rest) => .token name :: rest
      | none => .literal c :: parse s
    else .literal c :: parse s

def fillPiece (values : Text → Option Text) : TemplatePiece → Text
  | .literal c => [c]
  | .token name => (values name).getD (braced name)

def fill (values : Text → Option Text) (pieces : List TemplatePiece) : Text :=
  pieces.flatMap (fillPiece values)

example :
  fill (fun name => if name = "a" then some "x" else none)
      (parse "\x7b\x7ba\x7d\x7bb\x7d\x7d")
    = "\x7bx\x7bb\x7d\x7d"
  := by
  decide

/-! ### Pieces -/

variable {name : Text} {pieces rest : List TemplatePiece}

theorem closeName_eq_some (hclose : closeName pieces = some (name, rest)) :
  pieces = name.map .literal ++ .literal '}' :: rest ∧ '{' ∉ name ∧ '}' ∉ name
  := by
  fun_induction closeName pieces generalizing name with
  | case1 pieces =>
    cases hclose
    simp
  | case2 => cases hclose
  | case3 c pieces hopen hclos ih =>
    obtain ⟨⟨name', rest'⟩, hrest, heq⟩ := Option.map_eq_some_iff.mp hclose
    cases heq
    obtain ⟨rfl, hopens, hcloses⟩ := ih hrest
    refine ⟨rfl, ?_, ?_⟩
    · simp [hopens, Ne.symm hclos]
    · simp [hcloses, Ne.symm hopen]
  | case4 => cases hclose

theorem closeName_map (hopens : '{' ∉ name) (hclose : '}' ∉ name) (rest : List TemplatePiece) :
  closeName (name.map .literal ++ .literal '}' :: rest) = some (name, rest)
  := by
  induction name with
  | nil => rfl
  | cons c name ih =>
    rw [mem_cons, not_or] at hopens hclose
    rw [map_cons, cons_append, closeName, if_neg (Ne.symm hclose.1),
      if_neg (Ne.symm hopens.1), ih hopens.2 hclose.2]
    rfl

theorem closeName_append (pieces rest : List TemplatePiece) (name : Text) :
  closeName (pieces ++ .token name :: rest)
    = (closeName pieces).map (fun (name', rest') => (name', rest' ++ .token name :: rest))
  := by
  fun_induction closeName pieces with
  | case1 pieces => rfl
  | case2 pieces hopen => rfl
  | case3 c pieces hopen hclose ih =>
    rw [cons_append, closeName, if_neg hopen, if_neg hclose, ih, Option.map_map, Option.map_map]
    rfl
  | case4 pieces hother =>
    rcases pieces with _ | ⟨_ | _, pieces⟩
    · rfl
    · exact absurd rfl (hother _ _)
    · rfl

theorem fill_append (values : Text → Option Text) (pieces rest : List TemplatePiece) :
  fill values (pieces ++ rest) = fill values pieces ++ fill values rest
  := flatMap_append

theorem fill_literals (values : Text → Option Text) (s : Text) :
  fill values (s.map .literal) = s
  := by
  induction s with
  | nil => rfl
  | cons c s ih => exact congrArg (c :: ·) ih

theorem fill_parse (s : Text) : fill (fun _ => none) (parse s) = s := by
  induction s with
  | nil => rfl
  | cons c s ih =>
    unfold parse
    split_ifs with hopen
    · split
      · rename_i name rest hclose
        rw [(closeName_eq_some hclose).1, fill_append, fill_literals] at ih
        rw [hopen, ← ih]
        simp [fill, fillPiece, braced]
      · exact congrArg (c :: ·) ih
    · exact congrArg (c :: ·) ih

theorem not_mem_of_token_mem {s : Text} (hmem : .token name ∈ parse s) :
  '{' ∉ name ∧ '}' ∉ name
  := by
  induction s with
  | nil => cases hmem
  | cons c s ih =>
    unfold parse at hmem
    split_ifs at hmem with hopen
    · split at hmem
      · rename_i name' rest hclose
        obtain ⟨hparse, hnot⟩ := closeName_eq_some hclose
        obtain heq | hrest := mem_cons.mp hmem
        · cases heq
          apply hnot
        · apply ih
          rw [hparse]
          apply mem_append_right
          apply mem_cons_of_mem _ hrest
      · apply ih (mem_of_ne_of_mem (by simp) hmem)
    · apply ih (mem_of_ne_of_mem (by simp) hmem)

theorem parse_append_of_not_mem {s : Text} (hopens : '{' ∉ s) (t : Text) :
  parse (s ++ t) = s.map .literal ++ parse t
  := by
  induction s with
  | nil => rfl
  | cons c s ih =>
    rw [mem_cons, not_or] at hopens
    rw [cons_append, parse, if_neg (Ne.symm hopens.1), ih hopens.2]
    rfl

theorem parse_append (hopens : '{' ∉ name) (hclose : '}' ∉ name) (s t : Text) :
  parse (s ++ braced name ++ t) = parse s ++ .token name :: parse t
  := by
  induction s with
  | nil =>
    have hparse : parse (name ++ '}' :: t) = name.map .literal ++ .literal '}' :: parse t :=
      parse_append_of_not_mem hopens _
    have hbrac : [] ++ braced name ++ t = '{' :: (name ++ '}' :: t) := by
      simp [braced]
    have htoken : parse ('{' :: (name ++ '}' :: t)) = .token name :: parse t := by
      rw [parse, if_pos rfl, hparse, closeName_map hopens hclose]
    rw [hbrac, htoken]
    rfl
  | cons c s ih =>
    rw [cons_append, cons_append, parse, parse, ih, closeName_append]
    split_ifs with hopen
    · cases closeName (parse s) <;> rfl
    · rfl

/-! ### Tokens -/

def tokenCount (name template : Text) : Nat :=
  if '{' ∈ name ∨ '}' ∈ name then 0 else Text.count (braced name) template

theorem braced_ne_nil (name : Text) : braced name ≠ [] := cons_ne_nil _ _

theorem noOverlap_braced (hopens : '{' ∉ name) : (braced name).NoOverlap := by
  apply Text.noOverlap_cons
  simp [hopens]

theorem token_not_mem {s : Text} (hnone : ∀ i, ¬ Text.OccursAt (braced name) s i) :
  .token name ∉ parse s
  := by
  intro hmem
  obtain ⟨pieces, rest, heq⟩ := append_of_mem hmem
  have hs := fill_parse s
  rw [heq, fill_append] at hs
  apply hnone (fill (fun _ => none) pieces).length
  rw [← hs]
  have hocc := Text.occursAt_length (w := braced name) (fill (fun _ => none) pieces)
    (fill (fun _ => none) rest)
  rwa [append_assoc] at hocc

theorem count_token (name s : Text) : (parse s).count (.token name) = tokenCount name s := by
  unfold tokenCount
  split_ifs with hbrace
  · apply count_eq_zero.mpr
    intro hmem
    obtain ⟨hopens, hclose⟩ := not_mem_of_token_mem hmem
    exact hbrace.elim hopens hclose
  · rw [not_or] at hbrace
    obtain ⟨pieces, hpiece, hlen, -⟩ := Text.exists_pieces (braced_ne_nil name) [] s
    have hcount : (parse s).count (.token name) + 1 = pieces.length := by
      clear hlen
      induction hpiece with
      | last hnone =>
        rw [count_eq_zero.mpr (token_not_mem hnone)]
        rfl
      | found hfirst hrest ih =>
        rename_i before after pieces
        have hbef : .token name ∉ parse before := by
          apply token_not_mem
          intro i hocc
          apply hfirst i (hocc.lt_length (braced_ne_nil name))
          rw [append_assoc]
          apply hocc.append_right
        rw [parse_append hbrace.1 hbrace.2, count_append, count_cons_self,
          count_eq_zero.mpr hbef, length_cons]
        omega
    omega

/-! ### Filling further -/

theorem exists_texts {values values' : Text → Option Text} {value : Text}
    (hnone : values name = none) (hsome : values' name = some value)
    (hoths : ∀ other, other ≠ name → values' other = values other) (pieces : List TemplatePiece) :
  ∃ texts : List Text, texts.length = pieces.count (.token name) + 1
    ∧ fill values pieces = (braced name).intercalate texts
    ∧ fill values' pieces = value.intercalate texts
  := by
  induction pieces with
  | nil => exact ⟨[[]], rfl, rfl, rfl⟩
  | cons piece pieces ih =>
    obtain ⟨texts, hlen, hfill, hfill'⟩ := ih
    have hne : texts ≠ [] := by
      apply ne_nil_of_length_pos
      omega
    by_cases hpiece : piece = .token name
    · subst hpiece
      refine ⟨[] :: texts, ?_, ?_, ?_⟩
      · rw [length_cons, hlen, count_cons_self]
      · rw [Text.intercalate_cons _ _ hne, ← hfill, fill, flatMap_cons, fillPiece, hnone]
        rfl
      · rw [Text.intercalate_cons _ _ hne, ← hfill', fill, flatMap_cons, fillPiece, hsome]
        rfl
    · have hsame : fillPiece values' piece = fillPiece values piece := by
        cases piece with
        | literal c => rfl
        | token other =>
          rw [fillPiece, fillPiece, hoths]
          rintro rfl
          exact hpiece rfl
      obtain ⟨text, texts, rfl⟩ := exists_cons_of_ne_nil hne
      refine ⟨(fillPiece values piece ++ text) :: texts, ?_, ?_, ?_⟩
      · rw [count_cons_of_ne hpiece, ← hlen]
        rfl
      · rw [fill, flatMap_cons, ← fill, hfill]
        rcases texts with _ | ⟨text', texts⟩ <;> simp
      · rw [fill, flatMap_cons, ← fill, hfill', hsame]
        rcases texts with _ | ⟨text', texts⟩ <;> simp

theorem replace_fill_iff {values values' : Text → Option Text} {value : Text}
    (hnone : values name = none) (hsome : values' name = some value)
    (hoths : ∀ other, other ≠ name → values' other = values other) (s : Text) :
  Text.replace (braced name) value (fill values (parse s)) = fill values' (parse s)
    ↔ value = braced name ∨ Text.count (braced name) (fill values (parse s)) = tokenCount name s
  := by
  obtain ⟨texts, hlen, hfill, hfill'⟩ := exists_texts hnone hsome hoths (parse s)
  have hne : texts ≠ [] := by
    apply ne_nil_of_length_pos
    omega
  rw [count_token] at hlen
  rw [hfill, hfill']
  by_cases hopens : '{' ∈ name
  · rw [tokenCount, if_pos (.inl hopens)] at hlen ⊢
    obtain ⟨text, rfl⟩ := length_eq_one_iff.mp hlen
    rw [intercalate_singleton, intercalate_singleton]
    apply Text.replace_eq_self_iff (braced_ne_nil name)
  · rw [Text.replace_intercalate_eq_iff (braced_ne_nil name) (noOverlap_braced hopens) hne, hlen,
      Nat.add_right_cancel_iff]

end Template
