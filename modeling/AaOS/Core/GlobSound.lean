import AaOS.Core.Glob

/-!
# Soundness of path globs

A pattern is sound when every canonical absolute path it accepts is the path it names or lies below
it.  A pattern other than `*` is sound unless it is relative, ends with a star, and the text before
the star normalises to the empty path.
-/

open Path

/-- Every canonical absolute path that the pattern accepts is at or below the path the pattern
names. -/
def GlobSound (pattern : Text) : Prop :=
  ∀ canonical : LexPath, canonical.absolute = true →
    globMatchesCanonical pattern canonical.text = true →
      pattern.head? = some '/' ∧ (patternPath pattern).parts <+: canonical.parts

variable {pattern : Text}

theorem patternPath_absolute (hstar : pattern ≠ ['*']) :
  (patternPath pattern).absolute = true ↔ pattern.head? = some '/'
  := by
  cases h : starred pattern with
  | false => simp [patternPath, h, resolve_absolute]
  | true =>
    obtain ⟨literal, rfl⟩ := exists_of_starred h
    rw [patternPath_append, resolve_absolute]
    cases literal with
    | nil => exact absurd rfl hstar
    | cons c literal => simp

theorem prefix_of_globMatchesCanonical (hstar : pattern ≠ ['*']) (habs : pattern.head? = some '/')
    {canonical : LexPath} (h : globMatchesCanonical pattern canonical.text = true) :
  (patternPath pattern).parts <+: canonical.parts
  := by
  have hpath := (patternPath_absolute hstar).mpr habs
  cases hs : starred pattern with
  | false =>
    rw [globMatchesCanonical_of_not_starred hs] at h
    simp [LexPath.text_injective h]
  | true =>
    rw [globMatchesCanonical_of_starred hstar hs, extends_text_iff] at h
    obtain ⟨-, hpre, -⟩ | ⟨hrel, -⟩ := h
    · exact hpre
    · simp [hpath] at hrel

theorem not_globMatchesCanonical_of_relative (hstar : pattern ≠ ['*'])
    (hrel : pattern.head? ≠ some '/')
    (h : starred pattern = false ∨ (patternPath pattern).parts ≠ []) {canonical : LexPath}
    (habs : canonical.absolute = true) :
  globMatchesCanonical pattern canonical.text = false
  := by
  rw [Bool.eq_false_iff]
  intro hacc
  have hpath : (patternPath pattern).absolute ≠ true := by
    rwa [Ne, patternPath_absolute hstar]
  cases hs : starred pattern with
  | false =>
    rw [globMatchesCanonical_of_not_starred hs] at hacc
    rw [← LexPath.text_injective hacc] at hpath
    exact hpath habs
  | true =>
    rw [globMatchesCanonical_of_starred hstar hs, extends_text_iff] at hacc
    obtain ⟨heq, -⟩ | ⟨-, hnil, -⟩ := hacc
    · exact hpath (heq.trans habs)
    · obtain h | h := h
      · rw [hs] at h
        cases h
      · exact h hnil

/-- A pattern other than `*` is sound exactly when it is absolute, does not end with a star, or
names a component. -/
theorem globSound_iff {pattern : Text} (hstar : pattern ≠ ['*']) :
  GlobSound pattern
    ↔ pattern.head? = some '/' ∨ starred pattern = false ∨ (patternPath pattern).parts ≠ []
  := by
  constructor
  · intro hsound
    by_contra! h
    obtain ⟨hrel, hs, hnil⟩ := h
    have hpath : (patternPath pattern).absolute = false := by
      rwa [← Bool.not_eq_true, patternPath_absolute hstar]
    have hacc : globMatchesCanonical pattern (LexPath.mk true [] (by simp)).text = true := by
      rw [globMatchesCanonical_of_starred hstar (by simpa using hs), extends_text_iff]
      right
      use hpath, hnil
    exact hrel (hsound _ rfl hacc).1
  · intro h canonical habs hacc
    by_cases hroot : pattern.head? = some '/'
    · use hroot
      apply prefix_of_globMatchesCanonical hstar hroot hacc
    · rw [not_globMatchesCanonical_of_relative hstar hroot (h.resolve_left hroot) habs] at hacc
      cases hacc

/-- `/data/*` is sound. -/
theorem globSound_data :
  "/data/*".toList ≠ ['*'] ∧ GlobSound "/data/*".toList
  := by
  constructor
  · decide
  · apply (globSound_iff (by decide)).mpr
    left
    decide

/-- `./*` accepts `/etc/passwd`. -/
theorem not_globSound_dot :
  "./*".toList ≠ ['*'] ∧ ¬ GlobSound "./*".toList
  := by
  use (by decide)
  intro h
  have hacc : globMatchesCanonical "./*" "/etc/passwd" = true := by
    decide
  have htext : (resolve "/etc/passwd").text = "/etc/passwd" := by
    decide
  rw [← htext] at hacc
  exact absurd (h _ (by decide) hacc).1 (by decide)
