import AaOS.Lib.Path

/-!
# Glob matching of paths

`normalize_path`, `canonical_for_match` and `glob_matches_canonical` of
`aaos-core/src/capability.rs`.  The argument `canonicalize` is undefined where `fs::canonicalize`
returns an error.
-/

open Path

def normalizeStep (parts : List Text) (component : Text) : List Text :=
  match component with
  | [] => parts
  | ['.'] => parts
  | ['.', '.'] => parts.dropLast
  | other => parts ++ [other]

/-- Lexical path normalisation: `.` and `..` are resolved without access to the file
system. -/
def normalizePath (path : Text) : Text :=
  let parts := (path.splitOn '/').foldl normalizeStep []
  if path.head? = some '/' then '/' :: ['/'].intercalate parts else ['/'].intercalate parts

/-- `PathBuf::push` with a single component. -/
def pushSegment (canonical seg : Text) : Text :=
  match canonical.getLast? with
  | none => seg
  | some c => if c = '/' then canonical ++ seg else canonical ++ '/' :: seg

def ancestorLoop (canonicalize : Text → Option Text) (absolute : Bool) :
    List Text → List Text → Option Text
  | [], _ => none
  | name :: ancestor, tail =>
    match canonicalize (render absolute ancestor.reverse) with
    | some canonical => some ((name :: tail).foldl pushSegment canonical)
    | none => ancestorLoop canonicalize absolute ancestor (name :: tail)

/-- The canonical form of the normalised path, or of its nearest ancestor with one and the rest, or
the path itself. -/
def canonicalForMatch (canonicalize : Text → Option Text) (path : Text) : Text :=
  let normalized := normalizePath path
  match canonicalize normalized with
  | some canonical => canonical
  | none =>
    let p := resolve normalized
    match ancestorLoop canonicalize p.absolute p.parts.reverse [] with
    | some canonical => canonical
    | none => normalized

/-- Compare a pattern with a path in canonical form. -/
def globMatchesCanonical (pattern canonical : Text) : Bool :=
  if pattern = ['*'] then true
  else
    match Text.stripSuffix '*' pattern with
    | some literal =>
      let normPrefix := normalizePath literal
      normPrefix.isPrefixOf canonical
        && (canonical.length == normPrefix.length || canonical[normPrefix.length]? == some '/')
    | none => normalizePath pattern == canonical

def globMatches (canonicalize : Text → Option Text) (pattern path : Text) : Bool :=
  globMatchesCanonical pattern (canonicalForMatch canonicalize path)

/-! ### Normalisation -/

theorem normalizeStep_eq_push :
  normalizeStep = push
  := by
  funext parts component
  unfold normalizeStep push
  split <;> simp_all

theorem normalizePath_eq_text (path : Text) :
  normalizePath path = (resolve path).text
  := by
  simp [normalizePath, normalizeStep_eq_push, LexPath.text, render, resolve, join]

/-! ### Patterns -/

/-- The pattern ends with a star. -/
def starred (pattern : Text) : Bool := pattern.getLast? = some '*'

/-- The path a pattern names: the pattern without its final star, normalised. -/
def patternPath (pattern : Text) : LexPath :=
  resolve (if starred pattern then pattern.dropLast else pattern)

theorem patternPath_append (literal : Text) :
  patternPath (literal ++ ['*']) = resolve literal
  := by
  simp [patternPath, starred]

variable {pattern : Text}

theorem exists_of_starred (h : starred pattern = true) :
  ∃ literal, pattern = literal ++ ['*']
  := by
  obtain ⟨literal, rfl⟩ := List.getLast?_eq_some_iff.mp (by simpa [starred] using h)
  use literal

theorem globMatchesCanonical_of_starred (hstar : pattern ≠ ['*']) (h : starred pattern = true)
    (canonical : Text) :
  globMatchesCanonical pattern canonical = true
    ↔ Extends (patternPath pattern).text canonical
  := by
  obtain ⟨literal, rfl⟩ := exists_of_starred h
  rw [patternPath_append, ← normalizePath_eq_text, extends_iff_prefix_at]
  simp [globMatchesCanonical, hstar, List.isPrefixOf_iff_prefix]

theorem globMatchesCanonical_of_not_starred (h : starred pattern = false) (canonical : Text) :
  globMatchesCanonical pattern canonical = true ↔ canonical = (patternPath pattern).text
  := by
  have hlast : pattern.getLast? ≠ some '*' := by
    simpa [starred] using h
  have hstar : pattern ≠ ['*'] := by
    rintro rfl
    exact hlast rfl
  have hpath : (patternPath pattern).text = normalizePath pattern := by
    simp [patternPath, h, normalizePath_eq_text]
  rw [hpath, globMatchesCanonical, if_neg hstar, Text.stripSuffix, if_neg hlast]
  simp only [beq_iff_eq]
  exact eq_comm

theorem globMatchesCanonical_star (canonical : Text) :
  globMatchesCanonical ['*'] canonical = true
  := by
  simp [globMatchesCanonical]
