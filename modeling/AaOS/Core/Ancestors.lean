import AaOS.Core.Canonical
import AaOS.Tools.FileSystem

/-!
# The walk over the ancestors of a path

The loop of `canonical_for_match` in the texts it works on: `Path::file_name` and `PathBuf::pop`
take the last component off a normal path, so the loop ends after one round more than the path has
components, and it returns what the recursion over the components returns.  Every path it returns
is in normal form.
-/

open Path LexPath

/-- `Path::file_name`. -/
def pathFileName (path : Text) : Option Text :=
  let components := ((path.drop (pathHead path).length).splitOn '/').reverse
  match components.dropWhile skippedComponent with
  | [] => none
  | name :: _ => if name = ['.', '.'] then none else some name

/-- The loop over the ancestors of a path, for at most the given number of rounds.  The inner
result is the path that was found, if the loop was not left by `break`. -/
def ancestorWalk (canonicalize : Text → Option Text) :
    Nat → Text → List Text → Option (Option Text)
  | 0, _, _ => none
  | rounds + 1, ancestor, tail =>
    let tail := (pathFileName ancestor).toList ++ tail
    match pathParent ancestor with
    | none => some none
    | some parent =>
      match canonicalize parent with
      | some canonical => some (some (tail.foldl pushSegment canonical))
      | none => ancestorWalk canonicalize rounds parent tail

def canonicalForMatchWithin (rounds : Nat) (canonicalize : Text → Option Text) (path : Text) :
    Option Text :=
  let normalized := normalizePath path
  match canonicalize normalized with
  | some canonical => some canonical
  | none =>
    (ancestorWalk canonicalize rounds normalized []).map fun found => found.getD normalized

/-! ### The last component of a normal path -/

theorem dropWhile_skippedComponent {ps : List Text} (h : ∀ p ∈ ps, IsComponent p) :
  ps.dropWhile skippedComponent = ps
  := by
  cases ps with
  | nil => rfl
  | cons p ps =>
    have hp := h p (by simp)
    apply List.dropWhile_cons_of_neg
    simp [skippedComponent, hp.ne_nil, hp.ne_dot]

theorem pathHead_text (x : LexPath) :
  pathHead x.text = if x.absolute then ['/'] else []
  := by
  have hdot : ¬ (x.text = ['.'] ∨ ['.', '/'] <+: x.text) := by
    intro h
    have hmem : ['.'] ∈ components x.text := by
      obtain h | ⟨t, h⟩ := h
      · rw [h]
        decide
      · have hsplit : ('.' :: '/' :: t).splitOn '/' = ['.'] :: t.splitOn '/' :=
          List.splitOn_append_cons_self ['.'] t
        rw [← h]
        simp [components, afterRoot, hsplit]
    rw [components_text] at hmem
    exact (x.wf _ hmem).ne_dot rfl
  simp only [pathHead, head?_text]
  split
  · rfl
  · rw [if_neg]
    simpa [List.isPrefixOf_iff_prefix] using hdot

theorem dropWhile_names_text (x : LexPath) :
  ((x.text.drop (pathHead x.text).length).splitOn '/').reverse.dropWhile skippedComponent
    = x.parts.reverse
  := by
  have hdrop : x.text.drop (pathHead x.text).length = join x.parts := by
    rw [pathHead_text]
    cases h : x.absolute with
    | false => simp [text_of_relative h]
    | true => simp [text_of_absolute h]
  rw [hdrop]
  by_cases hnil : x.parts = []
  · rw [hnil]
    decide
  · rw [splitOn_join x.wf hnil]
    apply dropWhile_skippedComponent
    simpa using x.wf

theorem pathParent_text_of_nil {x : LexPath} (h : x.parts = []) :
  pathParent x.text = none
  := by
  rw [pathParent, dropWhile_names_text, h, pathHead_text]
  cases x.absolute with
  | false => rfl
  | true => rfl

section Child

variable (x : LexPath) {p : Text} (hp : IsComponent p)

theorem reverse_parts_child :
  (x.child p hp).parts.reverse = p :: x.parts.reverse
  := by
  simp [child]

theorem pathFileName_child :
  pathFileName (x.child p hp).text = some p
  := by
  simp [pathFileName, dropWhile_names_text, reverse_parts_child, hp.ne_dotdot]

theorem pathParent_child :
  pathParent (x.child p hp).text = some x.text
  := by
  have hparts : (x.parts.reverse.dropWhile skippedComponent).reverse = x.parts := by
    rw [dropWhile_skippedComponent (by simpa using x.wf), List.reverse_reverse]
  have htext : (if x.absolute then ['/'] else []) ++ join x.parts = x.text := by
    rw [text, render]
    split <;> rfl
  rw [pathParent, dropWhile_names_text, reverse_parts_child, pathHead_text]
  simp only [hparts]
  exact congrArg some htext

end Child

/-! ### The end of the walk -/

variable {canonicalize : Text → Option Text}

theorem ancestorWalk_text {rounds : Nat} :
  ∀ {x : LexPath} {tail : List Text}, x.parts.length < rounds →
    ancestorWalk canonicalize rounds x.text tail
      = some (ancestorLoop canonicalize x.absolute x.parts.reverse tail)
  := by
  induction rounds with
  | zero => simp
  | succ rounds ih =>
    intro x tail hlen
    by_cases hnil : x.parts = []
    · simp [ancestorWalk, pathParent_text_of_nil hnil, hnil, ancestorLoop]
    · obtain ⟨x, p, hp, rfl⟩ := exists_child hnil
      have hshort : x.parts.length < rounds := by
        simpa [child] using hlen
      have habs : (x.child p hp).absolute = x.absolute := rfl
      rw [reverse_parts_child, habs, ancestorLoop, List.reverse_reverse, ← text,
        ancestorWalk, pathParent_child, pathFileName_child]
      cases hfound : canonicalize x.text with
      | some canonical => simp [hfound]
      | none => simpa [hfound] using ih hshort

theorem canonicalForMatchWithin_eq {rounds : Nat} {s : Text}
    (h : (components (normalizePath s)).length < rounds) :
  canonicalForMatchWithin rounds canonicalize s = some (canonicalForMatch canonicalize s)
  := by
  rw [normalizePath_eq_text, components_text] at h
  rw [canonicalForMatchWithin, canonicalForMatch_eq, normalizePath_eq_text, ancestorWalk_text h,
    ← ancestorForm]
  cases canonicalize (resolve s).text with
  | some canonical => rfl
  | none => rfl

/-! ### Normal forms -/

/-- Both functions return paths in normal form, and the loop over the ancestors ends. -/
theorem normalizePath_canonicalForMatch_normalForm (s : Text) :
  NormalForm (normalizePath s)
    ∧ normalizePath (normalizePath s) = normalizePath s
    ∧ ((normalizePath s).head? = some '/' ↔ s.head? = some '/')
    ∧ ∀ canonicalize : Text → Option Text,
      (∀ p c, canonicalize p = some c → c.head? = some '/' ∧ NormalForm c) →
      (∀ rounds, (components (normalizePath s)).length < rounds →
        canonicalForMatchWithin rounds canonicalize s = some (canonicalForMatch canonicalize s))
      ∧ NormalForm (canonicalForMatch canonicalize s)
  := by
  have hnor : NormalForm (normalizePath s) := by
    rw [normalizePath_eq_text, normalForm_iff]
    use resolve s
  refine ⟨hnor, ?_, ?_, ?_⟩
  · rw [normalizePath_eq_text s, normalizePath_eq_text, resolve_text]
  · rw [normalizePath_eq_text, LexPath.head?_text, resolve_absolute]
  · intro canonicalize h
    constructor
    · intro rounds hround
      exact canonicalForMatchWithin_eq hround
    · have hcan : ∀ {p c}, canonicalize p = some c →
          ∃ y : LexPath, y.absolute = true ∧ y.text = c := by
        intro p c hc
        obtain ⟨habs, hform⟩ := h p c hc
        obtain ⟨y, rfl⟩ := normalForm_iff.mp hform
        use y, y.head?_text.mp habs
      obtain ⟨y, htext, -⟩ := canonicalForMatch_range hcan s
      rw [normalForm_iff]
      use y, htext

/-- The canonicalisation where `/data` is a link to `/srv`. -/
def linkedData (p : Text) : Option Text := if p = "/data" then some "/srv" else none

theorem normalForm_linkedData :
  (∀ p c, linkedData p = some c → c.head? = some '/' ∧ NormalForm c)
    ∧ canonicalForMatchWithin 3 linkedData "/data/./new/../file" = some "/srv/file"
    ∧ NormalForm "/srv/file"
  := by
  have hlink : ∀ p c, linkedData p = some c → c.head? = some '/' ∧ NormalForm c := by
    intro p c h
    obtain ⟨-, heq⟩ := Option.ite_none_right_eq_some.mp h
    obtain rfl := Option.some.inj heq
    unfold NormalForm
    decide
  have hres : canonicalForMatch linkedData "/data/./new/../file" = "/srv/file" := by decide
  obtain ⟨-, -, -, h⟩ := normalizePath_canonicalForMatch_normalForm "/data/./new/../file"
  rw [← hres]
  exact ⟨hlink, (h linkedData hlink).1 3 (by decide), (h linkedData hlink).2⟩
