import AaOS.Core.Glob

/-!
# Completeness of path globs

The pattern for a directory should accept the directory and everything below it.  It does
so for every absolute directory but the root, however the directory is written: the
normalised form of the root ends with a separator, and the pattern asks for another one
after it.
-/

open Path

def directoryPattern (directory : Text) : Text :=
  if directory = ['/'] then ['/', '*'] else directory ++ ['/', '*']

/-- The pattern for a directory accepts every canonical absolute path at or below the directory. -/
def GlobComplete (directory : Text) : Prop :=
  ∀ canonical : LexPath, canonical.absolute = true →
    (resolve directory).parts <+: canonical.parts →
      globMatchesCanonical (directoryPattern directory) canonical.text = true

theorem resolve_append_slash {s : Text} (hs : s ≠ []) :
  resolve (s ++ ['/']) = resolve s
  := by
  apply LexPath.ext
  · rw [Bool.eq_iff_iff, resolve_absolute, resolve_absolute, List.head?_append_of_ne_nil _ hs]
  · have hsplit : (s ++ ['/']).splitOn '/' = s.splitOn '/' ++ [[]] := by
      rw [List.splitOn_append_cons_self]
      simp
    simp [resolve, hsplit, push]

theorem patternPath_directoryPattern {directory : Text} (hne : directory ≠ []) :
  patternPath (directoryPattern directory) = resolve directory
  := by
  unfold directoryPattern
  split_ifs with hroot
  · rw [hroot]
    apply patternPath_append ['/']
  · rw [← resolve_append_slash hne, ← patternPath_append, List.append_assoc]
    rfl

theorem starred_directoryPattern (directory : Text) :
  starred (directoryPattern directory) = true
  := by
  unfold directoryPattern starred
  split_ifs <;> simp

theorem globMatchesCanonical_directoryPattern {directory : Text} (habs : directory.head? = some '/')
    {canonical : LexPath} (hcan : canonical.absolute = true) :
  globMatchesCanonical (directoryPattern directory) canonical.text = true
    ↔ (resolve directory).parts <+: canonical.parts
      ∧ ((resolve directory).parts = [] → canonical.parts = [])
  := by
  have hne : directory ≠ [] := by
    rintro rfl
    cases habs
  have hstar : directoryPattern directory ≠ ['*'] := by
    unfold directoryPattern
    split_ifs
    · decide
    · intro heq
      simpa using congrArg List.length heq
  have hpath := (resolve_absolute directory).mpr habs
  rw [globMatchesCanonical_of_starred hstar (starred_directoryPattern directory),
    patternPath_directoryPattern hne, extends_text_iff, hpath, hcan]
  simp

/-- The pattern for an absolute directory is complete exactly when this is not the root; and an
absolute pattern without a star accepts its normal form only. -/
theorem globComplete_iff {directory : Text} (habs : directory.head? = some '/') :
  (GlobComplete directory ↔ (resolve directory).parts ≠ [])
    ∧ ∀ pattern : Text, pattern.head? = some '/' → pattern.getLast? ≠ some '*' →
      ∀ canonical, globMatchesCanonical pattern canonical = true ↔ canonical = normalizePath pattern
  := by
  constructor
  · constructor
    · intro hcom hroot
      have hetc : IsComponent "etc" := by
        refine ⟨?_, ?_, ?_, ?_⟩ <;> decide
      have hacc := hcom ⟨true, ["etc"], by simpa using hetc⟩ rfl (by simp [hroot])
      have hparts := ((globMatchesCanonical_directoryPattern habs rfl).mp hacc).2 hroot
      cases hparts
    · intro hroot canonical hcan hbelow
      rw [globMatchesCanonical_directoryPattern habs hcan]
      use hbelow
      intro hnil
      exact absurd hnil hroot
  · intro pattern _ hlast canonical
    have hstar : starred pattern = false := by
      simpa [starred] using hlast
    rw [globMatchesCanonical_of_not_starred hstar, patternPath, hstar, normalizePath_eq_text]
    rfl

/-- The pattern for `/data/./x/..` accepts what is at or below `/data`. -/
theorem globComplete_data :
  "/data/./x/..".toList.head? = some '/' ∧ GlobComplete "/data/./x/..".toList
  := by
  constructor
  · decide
  · apply (globComplete_iff (by decide)).1.mpr
    decide

/-- The pattern `/*` for the root rejects `/etc`. -/
theorem not_globComplete_root :
  ¬ GlobComplete ['/'] ∧ globMatchesCanonical "/*".toList "/etc".toList = false
  := by
  have hrej : globMatchesCanonical "/*" "/etc" = false := by
    decide
  have hetc : (resolve "/etc").text = "/etc" := by
    decide
  refine ⟨?_, hrej⟩
  intro hcom
  have hacc := hcom (resolve "/etc") (by decide) (by decide)
  rw [hetc] at hacc
  exact absurd (hrej.symm.trans hacc) (by decide)
