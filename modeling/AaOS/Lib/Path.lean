import AaOS.Lib.Text

/-!
# Lexical paths

A lexical path is a list of components, absolute or relative; `LexPath.text` is its text, and
`resolve s` the path a text denotes when `.` and `..` are resolved without a file system.  An
extension of a text at a separator is the text itself or the text followed by `/` and
more.  Between texts of paths this is the ancestor relation, except at the root and at the empty
relative path.
-/

open List

namespace Path

/-- The components of a path: non-empty texts without separators, other than `.` and
`..`. -/
structure IsComponent (p : Text) : Prop where
  ne_nil : p ≠ []
  ne_dot : p ≠ ['.']
  ne_dotdot : p ≠ ['.', '.']
  no_slash : '/' ∉ p

/-- A list of components, with separators between them. -/
def join (parts : List Text) : Text := ['/'].intercalate parts

@[simp]
theorem join_nil :
  join [] = []
  := rfl

@[simp]
theorem join_singleton (p : Text) :
  join [p] = p
  := by
  simp [join, intercalate]

theorem join_cons_cons (p q : Text) (parts : List Text) :
  join (p :: q :: parts) = p ++ '/' :: join (q :: parts)
  := by
  simp [join, intercalate]

variable {ps : List Text}

theorem join_append {qs : List Text} (hp : ps ≠ []) (hq : qs ≠ []) :
  join (ps ++ qs) = join ps ++ '/' :: join qs
  := by
  induction ps with
  | nil => exact absurd rfl hp
  | cons p ps ih =>
    cases ps with
    | nil =>
      obtain ⟨q, qs, rfl⟩ := exists_cons_of_ne_nil hq
      simp [join_cons_cons]
    | cons p' ps =>
      rw [cons_append, cons_append, join_cons_cons, join_cons_cons, ← cons_append, ih (by simp)]
      simp

variable {parts : List Text}

theorem join_ne_nil (h : ∀ p ∈ parts, IsComponent p) (hne : parts ≠ []) :
  join parts ≠ []
  := by
  obtain ⟨p, parts, rfl⟩ := exists_cons_of_ne_nil hne
  have hp := (h p (by simp)).ne_nil
  cases parts with
  | nil => simpa
  | cons q parts => simp [join_cons_cons]

theorem splitOn_join (h : ∀ p ∈ parts, IsComponent p) (hne : parts ≠ []) :
  (join parts).splitOn '/' = parts
  := by
  apply splitOn_intercalate
  · intro p hp
    apply (h p hp).no_slash
  · exact hne

theorem head?_join_ne (h : ∀ p ∈ parts, IsComponent p) :
  (join parts).head? ≠ some '/'
  := by
  cases parts with
  | nil => simp
  | cons p parts =>
    have hp := h p (by simp)
    obtain ⟨c, p, rfl⟩ := exists_cons_of_ne_nil hp.ne_nil
    have hc : c ≠ '/' := by
      rintro rfl
      exact hp.no_slash (by simp)
    cases parts with
    | nil => simpa
    | cons q parts => simpa [join_cons_cons]

theorem getLast?_join_ne (h : ∀ p ∈ parts, IsComponent p) :
  (join parts).getLast? ≠ some '/'
  := by
  obtain rfl | ⟨ps, p, rfl⟩ := eq_nil_or_concat' parts
  · simp
  · have hp := h p (by simp)
    have hlast : p.getLast? ≠ some '/' := by
      intro hlast
      exact hp.no_slash (mem_of_getLast? hlast)
    by_cases hps : ps = []
    · simpa [hps] using hlast
    · rw [join_append hps (by simp), join_singleton, getLast?_append,
        getLast?_cons_of_ne_nil hp.ne_nil]
      cases hl : p.getLast? with
      | none => exact absurd (getLast?_eq_none_iff.mp hl) hp.ne_nil
      | some c => simpa [hl] using hlast

/-- The text of a path with the given components. -/
def render (absolute : Bool) (parts : List Text) : Text :=
  if absolute then '/' :: join parts else join parts

/-- A path: a list of components, absolute or relative. -/
@[ext]
structure LexPath where
  absolute : Bool
  parts : List Text
  wf : ∀ p ∈ parts, IsComponent p

namespace LexPath

/-- The text of a path. -/
def text (path : LexPath) : Text := render path.absolute path.parts

/-- The path with one more component. -/
def child (path : LexPath) (p : Text) (hp : IsComponent p) : LexPath where
  absolute := path.absolute
  parts := path.parts ++ [p]
  wf := by
    intro q hq
    obtain hq | rfl := by simpa using hq
    · exact path.wf q hq
    · exact hp

variable {path : LexPath}

theorem text_of_absolute (h : path.absolute = true) :
  path.text = '/' :: join path.parts
  := by
  simp [text, render, h]

theorem text_of_relative (h : path.absolute = false) :
  path.text = join path.parts
  := by
  simp [text, render, h]

theorem head?_text (path : LexPath) :
  path.text.head? = some '/' ↔ path.absolute = true
  := by
  cases h : path.absolute with
  | false =>
    rw [text_of_relative h]
    simpa using head?_join_ne path.wf
  | true => simp [text_of_absolute h]

theorem text_injective :
  Function.Injective text
  := by
  intro x y h
  have habs : x.absolute = y.absolute := by
    rw [Bool.eq_iff_iff, ← head?_text, ← head?_text, h]
  have hjoin : join x.parts = join y.parts := by
    cases ha : x.absolute with
    | false => rwa [text_of_relative ha, text_of_relative (habs ▸ ha)] at h
    | true =>
      rw [text_of_absolute ha, text_of_absolute (habs ▸ ha)] at h
      exact tail_eq_of_cons_eq h
  apply LexPath.ext habs
  by_cases hx : x.parts = []
  · by_contra hne
    rw [hx] at hjoin hne
    exact join_ne_nil y.wf (Ne.symm hne) hjoin.symm
  · have hy : y.parts ≠ [] := by
      intro hy
      rw [hy] at hjoin
      exact join_ne_nil x.wf hx hjoin
    rw [← splitOn_join x.wf hx, ← splitOn_join y.wf hy, hjoin]

theorem length_lt_child (path : LexPath) (p : Text) (hp : IsComponent p) :
  path.text.length < (path.child p hp).text.length
  := by
  have hpos : 0 < p.length := length_pos_iff.mpr hp.ne_nil
  have hjoin : (join path.parts).length < (join (path.parts ++ [p])).length := by
    by_cases hnil : path.parts = []
    · simpa [hnil] using hpos
    · rw [join_append hnil (by simp), join_singleton]
      simp
  cases h : path.absolute with
  | false | true => simpa [text, child, render, h] using hjoin

theorem exists_child (h : path.parts ≠ []) :
  ∃ (parent : LexPath) (p : Text) (hp : IsComponent p), parent.child p hp = path
  := by
  obtain ⟨parts, p, hparts⟩ := (eq_nil_or_concat path.parts).resolve_left h
  rw [concat_eq_append] at hparts
  have hwf : ∀ q ∈ parts, IsComponent q := by
    intro q hq
    apply path.wf q (by simp [hparts, hq])
  use ⟨path.absolute, parts, hwf⟩, p, path.wf p (by simp [hparts])
  exact LexPath.ext rfl hparts.symm

theorem exists_longer (n : Nat) :
  ∃ path : LexPath, path.absolute = true ∧ n < path.text.length
  := by
  have hp : IsComponent (replicate (n + 3) 'z') := by
    refine ⟨by simp, ?_, ?_, by simp⟩
    all_goals
      intro h
      simpa using congrArg length h
  use ⟨true, [_], by simpa using hp⟩, rfl
  rw [text_of_absolute rfl, join_singleton]
  simp only [length_cons, length_replicate]
  omega

end LexPath

/-! ### Resolving `.` and `..` -/

/-- Put a component on a list: nothing for the empty text and `.`, and `..` takes the last one off.
-/
def push (parts : List Text) (p : Text) : List Text :=
  if p = [] ∨ p = ['.'] then parts
  else if p = ['.', '.'] then parts.dropLast
  else parts ++ [p]

theorem push_of_isComponent {p : Text} (hp : IsComponent p) (parts : List Text) :
  push parts p = parts ++ [p]
  := by
  simp [push, hp.ne_nil, hp.ne_dot, hp.ne_dotdot]

theorem push_wf (h : ∀ q ∈ parts, IsComponent q) {p : Text} (hp : '/' ∉ p) :
  ∀ q ∈ push parts p, IsComponent q
  := by
  intro q hq
  unfold push at hq
  split at hq
  · exact h q hq
  · rename_i hempty
    push Not at hempty
    split at hq
    · exact h q (dropLast_subset parts hq)
    · rename_i hdots
      obtain hq | rfl := by simpa using hq
      · exact h q hq
      · exact ⟨hempty.1, hempty.2, hdots, hp⟩

theorem foldl_push_wf (hps : ∀ p ∈ ps, '/' ∉ p) (h : ∀ q ∈ parts, IsComponent q) :
  ∀ q ∈ ps.foldl push parts, IsComponent q
  := by
  induction ps generalizing parts with
  | nil => exact h
  | cons p ps ih =>
    apply ih
    · intro q hq
      apply hps q (by simp [hq])
    · apply push_wf h
      apply hps p (by simp)

theorem foldl_push_of_isComponent (h : ∀ p ∈ ps, IsComponent p) (parts : List Text) :
  ps.foldl push parts = parts ++ ps
  := by
  induction ps generalizing parts with
  | nil => simp
  | cons p ps ih =>
    rw [foldl_cons, push_of_isComponent (h p (by simp)), ih]
    · simp
    · intro q hq
      apply h q (by simp [hq])

variable {s : Text}

theorem not_mem_of_mem_splitOn {x : Char} {w : Text} (h : w ∈ s.splitOn x) :
  x ∉ w
  := by
  have hall : ∀ w ∈ s.splitOn x, ∀ c ∈ w, c ≠ x := by
    rw [Text.forall_mem_splitOn_iff]
    intro c _
    exact em (c = x)
  intro hx
  exact hall w h x hx rfl

/-- The path a text denotes, with `.` and `..` resolved lexically. -/
def resolve (s : Text) : LexPath where
  absolute := s.head? = some '/'
  parts := (s.splitOn '/').foldl push []
  wf := by
    apply foldl_push_wf
    · intro p hp
      apply not_mem_of_mem_splitOn hp
    · simp

theorem resolve_absolute (s : Text) :
  (resolve s).absolute = true ↔ s.head? = some '/'
  := by
  simp [resolve]

@[simp]
theorem resolve_text (path : LexPath) :
  resolve path.text = path
  := by
  have hjoin : ((join path.parts).splitOn '/').foldl push [] = path.parts := by
    by_cases hp : path.parts = []
    · simp [hp, push]
    · rw [splitOn_join path.wf hp, foldl_push_of_isComponent path.wf]
      simp
  apply LexPath.ext
  · rw [Bool.eq_iff_iff, resolve_absolute, LexPath.head?_text]
  · cases h : path.absolute with
    | false => simpa [resolve, LexPath.text_of_relative h] using hjoin
    | true =>
      simp only [resolve, LexPath.text_of_absolute h, splitOn_cons_eq_if_modifyHead]
      simpa [push] using hjoin

theorem resolve_concat {c : Char} (hc : c ≠ '/') (s : Text) :
  ∃ parts p, (resolve s).parts = push parts p
    ∧ (resolve (s ++ [c])).parts = push parts (p ++ [c])
    ∧ (∀ q ∈ parts, IsComponent q) ∧ '/' ∉ p
  := by
  obtain ⟨ps, p, hps⟩ := (eq_nil_or_concat (s.splitOn '/')).resolve_left
    (splitOn_ne_nil '/' s)
  rw [concat_eq_append] at hps
  have hp : '/' ∉ p := not_mem_of_mem_splitOn (s := s) (by simp [hps])
  have hpc : '/' ∉ p ++ [c] := by
    simp [hp, Ne.symm hc]
  have hs : s = join (ps ++ [p]) := by
    rw [← hps, join, intercalate_splitOn]
  have hlast : (s ++ [c]).splitOn '/' = ps ++ [p ++ [c]] := by
    by_cases hne : ps = []
    · rw [hs, hne, nil_append, join_singleton, splitOn_eq_singleton hpc, nil_append]
    · rw [join_append hne (by simp), join_singleton] at hs
      rw [hs, splitOn_append_cons_self, splitOn_eq_singleton hp] at hps
      rw [hs, append_assoc, cons_append, splitOn_append_cons_self,
        splitOn_eq_singleton hpc, append_cancel_right hps]
  use ps.foldl push [], p
  refine ⟨?_, ?_, ?_, hp⟩
  · simp [resolve, hps]
  · simp [resolve, hlast]
  · apply foldl_push_wf
    · intro q hq
      apply not_mem_of_mem_splitOn (s := s)
      simp [hps, hq]
    · simp

/-! ### Texts in normal form -/

/-- A path without its root. -/
def afterRoot (s : Text) : Text := if s.head? = some '/' then s.tail else s

/-- The texts between the separators of a path, after the root. -/
def components (s : Text) : List Text :=
  if afterRoot s = [] then [] else (afterRoot s).splitOn '/'

/-- No component is empty, `.` or `..`. -/
def NormalForm (s : Text) : Prop := ∀ c ∈ components s, c ≠ [] ∧ c ≠ ['.'] ∧ c ≠ ['.', '.']

@[simp]
theorem components_text (path : LexPath) :
  components path.text = path.parts
  := by
  have hrest : afterRoot path.text = join path.parts := by
    simp only [afterRoot, LexPath.head?_text]
    cases h : path.absolute with
    | false => simp [LexPath.text_of_relative h]
    | true => simp [LexPath.text_of_absolute h]
  rw [components, hrest]
  by_cases hnil : path.parts = []
  · simp [hnil]
  · simp [join_ne_nil path.wf hnil, splitOn_join path.wf hnil]

theorem join_components (s : Text) :
  join (components s) = afterRoot s
  := by
  rw [components]
  split
  · rename_i hnil
    rw [hnil, join_nil]
  · rw [join, intercalate_splitOn]

theorem normalForm_iff :
  NormalForm s ↔ ∃ path : LexPath, path.text = s
  := by
  constructor
  · intro h
    have hwf : ∀ c ∈ components s, IsComponent c := by
      intro c hc
      obtain ⟨hnil, hdot, hdots⟩ := h c hc
      refine ⟨hnil, hdot, hdots, ?_⟩
      rw [components] at hc
      split at hc
      · cases hc
      · exact not_mem_of_mem_splitOn hc
    use ⟨s.head? = some '/', components s, hwf⟩
    rw [LexPath.text, render, join_components, afterRoot]
    by_cases hroot : s.head? = some '/'
    · simpa [hroot] using cons_head?_tail hroot
    · simp [hroot]
  · rintro ⟨path, rfl⟩ c hc
    have hcom := path.wf c (components_text path ▸ hc)
    exact ⟨hcom.ne_nil, hcom.ne_dot, hcom.ne_dotdot⟩

/-! ### Extensions at a separator -/

def Extends (base s : Text) : Prop :=
  s = base ∨ ∃ t, s = base ++ '/' :: t

theorem Extends.refl (base : Text) :
  Extends base base
  := .inl rfl

theorem Extends.trans {r t : Text} (hrs : Extends r s) (hst : Extends s t) :
  Extends r t
  := by
  obtain rfl | ⟨u, rfl⟩ := hst
  · exact hrs
  · obtain rfl | ⟨v, rfl⟩ := hrs
    · right
      use u
    · right
      use v ++ '/' :: u
      simp

theorem extends_iff_prefix_at {base : Text} :
  Extends base s ↔ base <+: s ∧ (s.length = base.length ∨ s[base.length]? = some '/')
  := by
  constructor
  · rintro (rfl | ⟨t, rfl⟩)
    · simp
    · simp
  · rintro ⟨⟨t, rfl⟩, h⟩
    cases t with
    | nil =>
      left
      simp
    | cons c t =>
      obtain rfl : c = '/' := by simpa using h
      right
      use t

theorem extends_cons_iff (c : Char) {r : Text} :
  Extends (c :: r) (c :: s) ↔ Extends r s
  := by
  simp [Extends]

theorem extends_join_iff {qs : List Text} (hp : ∀ p ∈ ps, IsComponent p)
    (hq : ∀ q ∈ qs, IsComponent q) :
  Extends (join ps) (join qs) ↔ ps <+: qs ∧ (ps = [] → qs = [])
  := by
  by_cases hne : ps = []
  · subst hne
    have hhead := head?_join_ne hq
    constructor
    · rintro (h | ⟨t, h⟩)
      · have hqs : qs = [] := by
          by_contra hqs
          exact join_ne_nil hq hqs h
        simp [hqs]
      · simp [h] at hhead
    · rintro ⟨-, h⟩
      rw [h rfl]
      apply Extends.refl
  · simp only [hne, false_imp_iff, and_true]
    constructor
    · intro h
      have hqs : qs ≠ [] := by
        rintro rfl
        obtain h | ⟨t, h⟩ := h
        · exact join_ne_nil hp hne h.symm
        · simp at h
      obtain h | ⟨t, h⟩ := h
      · have heq : qs = ps := by
          rw [← splitOn_join hp hne, ← h, splitOn_join hq hqs]
        simp [heq]
      · rw [← splitOn_join hq hqs, h, splitOn_append_cons_self, splitOn_join hp hne]
        simp
    · rintro ⟨rs, rfl⟩
      by_cases hrs : rs = []
      · left
        simp [hrs]
      · right
        use join rs
        apply join_append hne hrs

theorem extends_text_iff (x y : LexPath) :
  Extends x.text y.text
    ↔ (x.absolute = y.absolute ∧ x.parts <+: y.parts ∧ (x.parts = [] → y.parts = []))
      ∨ (x.absolute = false ∧ x.parts = [] ∧ y.absolute = true)
  := by
  cases hx : x.absolute with
  | false =>
    rw [LexPath.text_of_relative hx]
    cases hy : y.absolute with
    | false =>
      rw [LexPath.text_of_relative hy, extends_join_iff x.wf y.wf]
      simp
    | true =>
      rw [LexPath.text_of_absolute hy]
      constructor
      · intro h
        have hhead := head?_join_ne x.wf
        have hnil : join x.parts = [] := by
          by_contra hne
          obtain ⟨c, s, hs⟩ := exists_cons_of_ne_nil hne
          obtain h | ⟨t, h⟩ := h
          · simp [← h] at hhead
          · simp only [hs, cons_append, cons.injEq] at h
            simp [hs, ← h.1] at hhead
        right
        simp only [true_and, and_true]
        by_contra hne
        exact join_ne_nil x.wf hne hnil
      · rintro (⟨h, -⟩ | ⟨-, h, -⟩)
        · cases h
        · right
          simp [h]
  | true =>
    rw [LexPath.text_of_absolute hx]
    cases hy : y.absolute with
    | false =>
      rw [LexPath.text_of_relative hy]
      have hhead := head?_join_ne y.wf
      constructor
      · rintro (h | ⟨t, h⟩)
        all_goals simp [h] at hhead
      · simp
    | true =>
      rw [LexPath.text_of_absolute hy, extends_cons_iff, extends_join_iff x.wf y.wf]
      simp

end Path
