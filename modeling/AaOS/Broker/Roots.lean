import AaOS.Core.Manifest
import AaOS.Tools.FileSystem

/-!
# The roots of a sandbox

`extract_capability_roots` of `aaos-backend-linux/src/lib.rs` takes a directory from every file
capability of a manifest; the directories are mounted into the sandbox, and `build_ruleset` of
`landlock_compile.rs` allows access below them.  The filter for roots that are too wide takes `..`
for a component like others, so a directory that leads back to the root passes it.
-/

open List Option Path

namespace Sandbox

/-! ### Paths -/

def names (path : Text) : List Text :=
  (path.splitOn '/').filter fun component => !skippedComponent component

def samePath (path other : Text) : Bool :=
  pathHead path = pathHead other
    && names (path.drop (pathHead path).length) = names (other.drop (pathHead other).length)

/-! ### Roots -/

def filePath : CapabilityDeclaration → Option Text
  | .withParams _ => none
  | .simple s =>
    match Text.splitFirst [':'] s with
    | none => none
    | some (kind, rest) =>
      if Text.trim kind ≠ "file_read" ∧ Text.trim kind ≠ "file_write" then none
      else some (Text.trim rest)

/-- The text before the first `*` or `{`. -/
def literalPart (path : Text) : Text := path.takeWhile fun c => c ≠ '*' && c ≠ '{'

def rootOf (trimmed : Text) : Option Text :=
  if trimmed.head? ≠ some '/' then none
  else
    let root :=
      if trimmed.getLast? = some '/' then trimmed else (pathParent trimmed).getD trimmed
    if root = [] || samePath root ['/'] || samePath root ['.'] then none else some root

def capabilityRoot (declaration : CapabilityDeclaration) : Option Text :=
  (filePath declaration).bind fun path => rootOf (literalPart path)

def extractCapabilityRoots (manifest : AgentManifest) : List Text :=
  manifest.capabilities.filterMap capabilityRoot

/-! ### Components -/

section Components

variable {path : Text}

theorem foldl_push_filter (components parts : List Text) :
  (components.filter fun component => !skippedComponent component).foldl push parts
    = components.foldl push parts
  := by
  induction components generalizing parts with
  | nil => rfl
  | cons component components ih =>
    by_cases hskip : skippedComponent component = true
    · have hpush : push parts component = parts := by
        rw [push, if_pos]
        simpa [skippedComponent] using hskip
      rw [filter_cons_of_neg (by simp [hskip]), foldl_cons, hpush, ih]
    · rw [filter_cons_of_pos (by simp [hskip]), foldl_cons, foldl_cons, ih]

theorem parts_resolve (path : Text) :
  (resolve path).parts = (names path).foldl push []
  := (foldl_push_filter _ _).symm

theorem names_cons_slash (path : Text) : names ('/' :: path) = names path := by
  rw [names, splitOn_cons_eq_if_modifyHead]
  rfl

theorem names_join {components : List Text} (h : ∀ component ∈ components, '/' ∉ component) :
  names (Path.join components) = components.filter fun component => !skippedComponent component
  := by
  cases components with
  | nil => rfl
  | cons component components =>
    rw [names, Path.join, splitOn_intercalate]
    · apply h
    · apply cons_ne_nil

theorem filter_dropWhile (components : List Text) :
  ((components.dropWhile skippedComponent).filter fun component => !skippedComponent component)
    = components.filter fun component => !skippedComponent component
  := by
  induction components with
  | nil => rfl
  | cons component components ih =>
    by_cases hskip : skippedComponent component = true
    · rw [dropWhile_cons_of_pos hskip, ih, filter_cons_of_neg (by simp [hskip])]
    · rw [dropWhile_cons_of_neg hskip]

variable (habs : path.head? = some '/')

include habs

theorem pathParent_of_absolute :
  (names path = [] ∧ pathParent path = none)
    ∨ ∃ parent last, pathParent path = some parent ∧ parent.head? = some '/'
      ∧ names path = names parent ++ [last]
  := by
  obtain _ | ⟨_, path⟩ := path
  · cases habs
  obtain rfl := some.inj habs
  have hrev : names path = (((path.splitOn '/').reverse.dropWhile skippedComponent).filter
      fun component => !skippedComponent component).reverse := by
    rw [filter_dropWhile, ← filter_reverse, reverse_reverse, names]
  have hroot : pathHead ('/' :: path) = ['/'] := rfl
  rw [names_cons_slash, hrev]
  rcases hcom : (path.splitOn '/').reverse.dropWhile skippedComponent with _ | ⟨last, rest⟩
  · left
    exact ⟨rfl, by simp [pathParent, hroot, hcom]⟩
  · right
    have hpar : pathParent ('/' :: path)
        = some ('/' :: Path.join (rest.dropWhile skippedComponent).reverse) := by
      simp [pathParent, hroot, hcom]
    have hlast : skippedComponent last = false := by
      have hhead := head_dropWhile_not skippedComponent (l := (path.splitOn '/').reverse)
        (by simp [hcom])
      simpa [hcom] using hhead
    have hslash : ∀ component ∈ (rest.dropWhile skippedComponent).reverse, '/' ∉ component := by
      intro component hmem
      apply not_mem_of_mem_splitOn (s := path)
      apply mem_reverse.mp
      apply (dropWhile_suffix skippedComponent).subset
      rw [hcom]
      apply mem_cons_of_mem
      apply (dropWhile_suffix skippedComponent).subset
      apply mem_reverse.mp hmem
    refine ⟨_, last, hpar, rfl, ?_⟩
    rw [names_cons_slash, names_join hslash, filter_reverse, filter_dropWhile,
      filter_cons_of_pos (by simp [hlast]), reverse_cons]

theorem samePath_root_iff :
  samePath path ['/'] = true ↔ names path = []
  := by
  obtain _ | ⟨_, path⟩ := path
  · cases habs
  obtain rfl := some.inj habs
  rw [names_cons_slash]
  have hnil : names [] = [] := rfl
  simp [samePath, pathHead, hnil]

theorem samePath_dot : samePath path ['.'] = false := by
  simp [samePath, pathHead, habs]

end Components

/-- The components of the directory for the literal part: without the last one unless a separator
ends it. -/
def directoryNames (trimmed : Text) : List Text :=
  if trimmed.getLast? = some '/' then names trimmed else (names trimmed).dropLast

variable {trimmed : Text}

/-- There is a directory for an absolute path with enough components. -/
theorem rootOf_of_absolute (habs : trimmed.head? = some '/') :
  (directoryNames trimmed = [] ∧ rootOf trimmed = none)
    ∨ (directoryNames trimmed ≠ [] ∧ ∃ root, rootOf trimmed = some root
      ∧ root.head? = some '/' ∧ names root = directoryNames trimmed)
  := by
  obtain ⟨root, hroot, habs', hnames⟩ : ∃ root,
      root = (if trimmed.getLast? = some '/' then trimmed else (pathParent trimmed).getD trimmed)
        ∧ root.head? = some '/' ∧ names root = directoryNames trimmed := by
    refine ⟨_, rfl, ?_⟩
    unfold directoryNames
    split_ifs with hslash
    · exact ⟨habs, rfl⟩
    · obtain ⟨hnames, hpar⟩ | ⟨parent, last, hpar, hhead, hnames⟩ :=
        pathParent_of_absolute habs
      · rw [hpar, hnames]
        exact ⟨habs, hnames⟩
      · rw [hpar, hnames, dropLast_concat]
        exact ⟨hhead, rfl⟩
  have hne : root ≠ [] := by
    rintro rfl
    cases habs'
  have hrootOf : rootOf trimmed = if names root = [] then none else some root := by
    rw [rootOf, if_neg (not_not.mpr habs), ← hroot]
    simp [hne, samePath_dot habs', samePath_root_iff habs']
  rw [hrootOf, hnames]
  split_ifs with hnil
  · exact .inl ⟨hnil, rfl⟩
  · exact .inr ⟨hnil, root, rfl, habs', hnames⟩

/-! ### The neighbourhood of a grant -/

/-- After normalisation the directory is not the root, and the literal part is the directory or one
component longer. -/
structure Near (root trimmed : Text) : Prop where
  absolute : (Path.resolve root).absolute = (Path.resolve trimmed).absolute
  ne_root : (Path.resolve root).parts ≠ []
  ancestor : ∃ tail, (Path.resolve trimmed).parts = (Path.resolve root).parts ++ tail
    ∧ tail.length ≤ 1

/-- Every root of the manifest is near the literal part of the file capabilities it stands
for. -/
def RootsNear (manifest : AgentManifest) : Prop :=
  ∀ root ∈ extractCapabilityRoots manifest, ∀ declaration ∈ manifest.capabilities, ∀ path,
    filePath declaration = some path → capabilityRoot declaration = some root →
      Near root (literalPart path)

/-- The components of the directory do not lead back to the root, and the text does not end with
`..`. -/
def Descends (trimmed : Text) : Prop :=
  directoryNames trimmed = []
    ∨ (directoryNames trimmed).foldl Path.push [] ≠ []
      ∧ (trimmed.getLast? = some '/' ∨ (names trimmed).getLast? ≠ some ['.', '.'])

theorem eq_concat_of_directoryNames_ne_nil (hslash : trimmed.getLast? ≠ some '/')
    (hne : directoryNames trimmed ≠ []) :
  ∃ last, names trimmed = directoryNames trimmed ++ [last] ∧ skippedComponent last = false
  := by
  rw [directoryNames, if_neg hslash] at hne ⊢
  obtain hnil | ⟨init, last, hnames⟩ := eq_nil_or_concat (names trimmed)
  · rw [hnil] at hne
    exact absurd rfl hne
  · rw [concat_eq_append] at hnames
    have hmem : last ∈ names trimmed := by
      rw [hnames]
      apply mem_concat_self
    rw [hnames, dropLast_concat]
    use last, rfl
    simpa using (mem_filter.mp hmem).2

theorem near_iff_descends {root : Text} (habs : trimmed.head? = some '/')
    (hroot : rootOf trimmed = some root) :
  Near root trimmed ↔ Descends trimmed
  := by
  obtain ⟨-, hnone⟩ | ⟨hne, root', hroot', hhead, hnames⟩ := rootOf_of_absolute habs
  · rw [hnone] at hroot
    cases hroot
  rw [hroot] at hroot'
  obtain rfl := some.inj hroot'
  have hboth : (resolve root).absolute = (resolve trimmed).absolute := by
    rw [(resolve_absolute root).mpr hhead, (resolve_absolute trimmed).mpr habs]
  have hparts : (resolve root).parts = (directoryNames trimmed).foldl push [] := by
    rw [parts_resolve, hnames]
  have hdes : Descends trimmed ↔ (directoryNames trimmed).foldl push [] ≠ []
      ∧ (trimmed.getLast? = some '/' ∨ (names trimmed).getLast? ≠ some ['.', '.']) :=
    or_iff_right hne
  rw [hdes]
  by_cases hslash : trimmed.getLast? = some '/'
  · have hsame : (resolve trimmed).parts = (resolve root).parts := by
      rw [hparts, parts_resolve, directoryNames, if_pos hslash]
    constructor
    · intro hnear
      refine ⟨?_, .inl hslash⟩
      rw [← hparts]
      apply hnear.ne_root
    · rintro ⟨hdeep, -⟩
      rw [← hparts] at hdeep
      exact ⟨hboth, hdeep, [], by rw [hsame, append_nil], Nat.zero_le 1⟩
  · obtain ⟨last, hlast, hskip⟩ := eq_concat_of_directoryNames_ne_nil hslash hne
    have htrim : (resolve trimmed).parts = push (resolve root).parts last := by
      rw [parts_resolve, hlast, foldl_concat, hparts]
    have hkept : ¬ (last = [] ∨ last = ['.']) := by
      simpa [skippedComponent] using hskip
    rw [hlast, getLast?_concat, ← hparts]
    constructor
    · rintro ⟨-, hdeep, tail, htail, -⟩
      refine ⟨hdeep, .inr ?_⟩
      intro hdots
      have hlen := congrArg length htail
      rw [htrim, push, if_neg hkept, if_pos (some.inj hdots), length_dropLast,
        length_append] at hlen
      have hpos := length_pos_iff.mpr hdeep
      omega
    · rintro ⟨hdeep, hlast'⟩
      have hdots : last ≠ ['.', '.'] := by
        rintro rfl
        apply hlast'.resolve_left hslash rfl
      refine ⟨hboth, hdeep, [last], ?_, le_rfl⟩
      rw [htrim, push, if_neg hkept, if_neg hdots]

/-- The roots of a manifest are near its file capabilities exactly when every absolute one descends.
-/
theorem rootsNear_iff_descends (manifest : AgentManifest) :
  RootsNear manifest
    ↔ ∀ declaration ∈ manifest.capabilities, ∀ path, filePath declaration = some path →
      (literalPart path).head? = some '/' → Descends (literalPart path)
  := by
  constructor
  · intro hnear declaration hmem path hpath habs
    obtain ⟨hnil, -⟩ | ⟨-, root, hroot, -⟩ := rootOf_of_absolute habs
    · left
      apply hnil
    · have hdec : capabilityRoot declaration = some root := by
        rw [capabilityRoot, hpath]
        apply hroot
      apply (near_iff_descends habs hroot).mp
      apply hnear root (List.mem_filterMap.mpr ⟨declaration, hmem, hdec⟩) declaration hmem path
        hpath hdec
  · intro hdes root _ declaration hmem path hpath hdec
    have hroot : rootOf (literalPart path) = some root := by
      rwa [capabilityRoot, hpath] at hdec
    have habs : (literalPart path).head? = some '/' := by
      by_contra hrel
      rw [rootOf, if_pos hrel] at hroot
      cases hroot
    apply (near_iff_descends habs hroot).mpr
    apply hdes declaration hmem path hpath habs

def climbingManifest : AgentManifest where
  name := "climber"
  model := "model"
  systemPrompt := .inline "Climb."
  capabilities := [.simple "file_write: /data/../*"]
  budgetConfig := none

/-- The directory `/data/../` passes the filter and is the root of the file system. -/
theorem not_rootsNear_climbing :
  extractCapabilityRoots climbingManifest = ["/data/../".toList]
    ∧ (Path.resolve "/data/../".toList).parts = [] ∧ ¬ RootsNear climbingManifest
  := by
  refine ⟨by decide, by decide, ?_⟩
  intro hnear
  apply (hnear "/data/../" (by decide) _ List.mem_cons_self "/data/../*" (by decide)
    (by decide)).ne_root
  decide

end Sandbox
