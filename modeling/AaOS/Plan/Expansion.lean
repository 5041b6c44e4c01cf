import AaOS.Plan.Role

/-!
# Complete expansion of capabilities

`expand_capability` of `aaos-runtime/src/plan/role.rs` drops a capability in which a name in braces
is left.  It looks at the first braces only: when there is nothing between these, the capability is
kept.
-/

open List Text Json

/-! ### Names in braces -/

/-- There is something between an opening brace and the next closing one. -/
def HasTemplateToken (s : Text) : Prop :=
  ∃ before inner after, s = before ++ '{' :: (inner ++ '}' :: after) ∧ '}' ∉ inner ∧ inner ≠ []

/-- There is nothing between the first braces, and something between later ones. -/
def HidesTemplateToken (s : Text) : Prop :=
  ∃ before after, s = before ++ '{' :: '}' :: after ∧ '{' ∉ before ∧ HasTemplateToken after

variable {s : Text}

theorem hasTemplateToken_cons_iff {c : Char} :
  HasTemplateToken (c :: s) ↔ (c = '{' ∧ '}' ∈ s ∧ s.head? ≠ some '}') ∨ HasTemplateToken s
  := by
  constructor
  · rintro ⟨_ | ⟨c', before⟩, inner, after, heq, hinner, hne⟩
    · cases heq
      obtain ⟨d, inner, rfl⟩ := exists_cons_of_ne_nil hne
      refine .inl ⟨rfl, by simp, ?_⟩
      rintro hhead
      cases hhead
      exact absurd mem_cons_self hinner
    · cases heq
      exact .inr ⟨before, inner, after, rfl, hinner, hne⟩
  · rintro (⟨rfl, hclose, hhead⟩ | ⟨before, inner, after, rfl, hinner, hne⟩)
    · obtain ⟨inner, after, rfl, hinner⟩ := eq_append_cons_of_mem hclose
      refine ⟨[], inner, after, rfl, hinner, ?_⟩
      rintro rfl
      exact absurd rfl hhead
    · exact ⟨c :: before, inner, after, rfl, hinner, hne⟩

theorem not_hasTemplateToken_nil : ¬ HasTemplateToken [] := by
  rintro ⟨before, inner, after, heq, -⟩
  simp at heq

instance decidableHasTemplateToken : DecidablePred HasTemplateToken
  | [] => isFalse not_hasTemplateToken_nil
  | _ :: s =>
    have := decidableHasTemplateToken s
    decidable_of_iff' _ hasTemplateToken_cons_iff

theorem hasTemplateToken_append_iff {before s : Text} (hbef : '{' ∉ before) :
  HasTemplateToken (before ++ s) ↔ HasTemplateToken s
  := by
  induction before with
  | nil => rfl
  | cons c before ih =>
    rw [mem_cons, not_or] at hbef
    rw [cons_append, hasTemplateToken_cons_iff, ih hbef.2, or_iff_right]
    rintro ⟨rfl, -⟩
    exact hbef.1 rfl

theorem HasTemplateToken.mem (htoken : HasTemplateToken s) : '{' ∈ s ∧ '}' ∈ s := by
  obtain ⟨before, inner, after, rfl, -⟩ := htoken
  simp

/-! ### The first braces -/

variable {before after : Text}

theorem splitBraces_eq_some_iff {inner : Text} :
  splitBraces s = some (before, inner, after)
    ↔ s = before ++ '{' :: (inner ++ '}' :: after) ∧ '{' ∉ before ∧ '}' ∉ inner
  := by
  constructor
  · intro hbrace
    have heq := eq_of_splitBraces_eq_some hbrace
    unfold splitBraces at hbrace
    split at hbrace
    · cases hbrace
    · rename_i before' rest hopen
      obtain ⟨⟨inner', after'⟩, hclose, hparts⟩ := Option.map_eq_some_iff.mp hbrace
      cases hparts
      exact ⟨heq, (splitFirst_singleton_iff.mp hopen).2, (splitFirst_singleton_iff.mp hclose).2⟩
  · rintro ⟨rfl, hbef, hinner⟩
    unfold splitBraces
    rw [splitFirst_singleton_iff.mpr ⟨rfl, hbef⟩]
    dsimp only
    rw [splitFirst_singleton_iff.mpr ⟨rfl, hinner⟩]
    rfl

theorem hasUnresolvedTemplateToken_iff :
  hasUnresolvedTemplateToken s = true ↔ HasTemplateToken s ∧ ¬ HidesTemplateToken s
  := by
  unfold hasUnresolvedTemplateToken
  rcases hbrace : splitBraces s with _ | ⟨before, inner, after⟩
  · simp only [Bool.false_eq_true, false_iff, not_and, not_not]
    intro htoken
    obtain ⟨before, rest, rfl, hbef⟩ := eq_append_cons_of_mem htoken.mem.1
    rw [hasTemplateToken_append_iff hbef, hasTemplateToken_cons_iff] at htoken
    have hclose : '}' ∈ rest := by
      obtain ⟨-, hclose, -⟩ | htoken := htoken
      · apply hclose
      · apply htoken.mem.2
    obtain ⟨inner, after, rfl, hinner⟩ := eq_append_cons_of_mem hclose
    rw [splitBraces_eq_some_iff.mpr ⟨rfl, hbef, hinner⟩] at hbrace
    cases hbrace
  · obtain ⟨rfl, hbef, hinner⟩ := splitBraces_eq_some_iff.mp hbrace
    simp only [ne_eq, decide_eq_true_eq]
    constructor
    · intro hne
      refine ⟨⟨before, inner, after, rfl, hinner, hne⟩, ?_⟩
      rintro ⟨before', after', heq, hbef', -⟩
      have hhid : splitBraces (before' ++ '{' :: '}' :: after') = some (before', [], after') :=
        splitBraces_eq_some_iff.mpr ⟨rfl, hbef', by simp⟩
      rw [← heq, hbrace] at hhid
      cases hhid
      exact hne rfl
    · rintro ⟨htoken, hhides⟩ rfl
      apply hhides
      refine ⟨before, after, rfl, hbef, ?_⟩
      rw [hasTemplateToken_append_iff hbef, nil_append, hasTemplateToken_cons_iff,
        hasTemplateToken_cons_iff]
        at htoken
      simpa using htoken

theorem HidesTemplateToken.hasTemplateToken (hhides : HidesTemplateToken s) :
  HasTemplateToken s
  := by
  obtain ⟨before, after, rfl, hbef, htoken⟩ := hhides
  rw [hasTemplateToken_append_iff hbef, hasTemplateToken_cons_iff, hasTemplateToken_cons_iff]
  exact .inr (.inr htoken)

/-! ### The first array token -/

/-- The name in the first braces whose content is a name and `.*`, with the texts before and after
these braces. -/
inductive FirstArrayToken : Text → Text → Text → Text → Prop
  | here {before name : Text} (after : Text) (hbefore : '{' ∉ before) (hname : '}' ∉ name)
      (hne : name ≠ []) :
      FirstArrayToken (before ++ '{' :: (name ++ ".*" ++ '}' :: after)) before name after
  | later {before inner rest before' name after : Text} (hbefore : '{' ∉ before)
      (hinner : '}' ∉ inner) (hother : ∀ name', inner = name' ++ ".*" → name' = [])
      (hrest : FirstArrayToken rest before' name after) :
      FirstArrayToken (before ++ '{' :: (inner ++ '}' :: rest))
        (before ++ '{' :: (inner ++ '}' :: before')) name after

variable {name : Text}

theorem stripSuffix_array_iff {inner : Text} :
  (stripSuffix '*' inner).bind (stripSuffix '.') = some name
    ↔ inner = name ++ ".*"
  := by
  rw [Option.bind_eq_some_iff]
  simp only [stripSuffix_eq_some]
  constructor
  · rintro ⟨rest, rfl, rfl⟩
    simp
  · rintro rfl
    exact ⟨name ++ ['.'], by simp, rfl⟩

theorem firstArrayToken_of_findArrayToken (hfind : findArrayToken s = some (before, name, after)) :
  FirstArrayToken s before name after
  := by
  fun_induction findArrayToken s generalizing before with
  | case1 => cases hfind
  | case2 s before' inner after' hbrace c name' hname =>
    cases hfind
    obtain ⟨rfl, hbef, hinner⟩ := splitBraces_eq_some_iff.mp hbrace
    obtain rfl := stripSuffix_array_iff.mp hname
    apply FirstArrayToken.here _ hbef
    · intro hmem
      exact hinner (mem_append_left _ hmem)
    · simp
  | case3 s before' inner after' hbrace hother ih =>
    obtain ⟨⟨before'', _, _⟩, hrest, heq⟩ := Option.map_eq_some_iff.mp hfind
    cases heq
    obtain ⟨rfl, hbef, hinner⟩ := splitBraces_eq_some_iff.mp hbrace
    apply FirstArrayToken.later hbef hinner _ (ih hrest)
    intro name' hname
    by_contra hne
    obtain ⟨c, name', rfl⟩ := exists_cons_of_ne_nil hne
    apply hother c name' (stripSuffix_array_iff.mpr hname)

theorem findArrayToken_eq_some_iff :
  findArrayToken s = some (before, name, after) ↔ FirstArrayToken s before name after
  := by
  constructor
  · apply firstArrayToken_of_findArrayToken
  · intro hfirst
    induction hfirst with
    | here after hbef hname hne =>
      rename_i before name
      have hinner : '}' ∉ name ++ ".*" := by
        simp [hname]
      obtain ⟨c, name, rfl⟩ := exists_cons_of_ne_nil hne
      rw [findArrayToken_eq, splitBraces_eq_some_iff.mpr ⟨rfl, hbef, hinner⟩]
      dsimp only
      rw [stripSuffix_array_iff.mpr rfl]
    | later hbef hinner hother hrest ih =>
      rename_i before inner rest before' name after
      rw [findArrayToken_eq, splitBraces_eq_some_iff.mpr ⟨rfl, hbef, hinner⟩]
      dsimp only
      split
      · rename_i c name' hname
        cases hother _ (stripSuffix_array_iff.mp hname)
      · rw [ih]
        rfl

/-! ### Expansion -/

section Expansion

variable {toText : Json → Text} {role : Role} {params : Json} {template : Text}

/-- The texts that a template stands for before those with names in braces are dropped. -/
def renderings (toText : Json → Text) (template : Text) (params : Json) : List Text :=
  match findArrayToken template with
  | some (before, name, after) =>
    match (params.get name).bind Json.asArray with
    | none => []
    | some elems =>
      (elems.filterMap Json.asStr).map fun elem =>
        substituteTokens toText (before ++ elem ++ after) params
  | none => [substituteTokens toText template params]

theorem expandCapability_eq (toText : Json → Text) (template : Text) (params : Json) :
  expandCapability toText template params
    = (renderings toText template params).filter (fun rendered =>
        !hasUnresolvedTemplateToken rendered)
  := by
  unfold expandCapability renderings
  rcases findArrayToken template with _ | ⟨before, name, after⟩
  · cases hunr : hasUnresolvedTemplateToken (substituteTokens toText template params) <;>
      simp [hunr]
  · dsimp only
    cases (params.get name).bind asArray <;> rfl

/-- Nothing that a template is expanded to has a name in braces, and one that refers to an array is
expanded to one text for each element in order, but for those that have one. -/
structure ExpandsCompletely (toText : Json → Text) (template : Text) (params : Json) : Prop where
  resolved : ∀ rendered ∈ expandCapability toText template params, ¬ HasTemplateToken rendered
  elements : ∀ before name after elems, FirstArrayToken template before name after →
    params.get name = some (.arr elems) →
      ∃ strings : List Text, elems = strings.map Json.str
        ∧ expandCapability toText template params
          = (strings.map fun elem =>
              substituteTokens toText (before ++ elem ++ after) params).filter
                (fun rendered => ¬ HasTemplateToken rendered)

theorem Json.exists_eq_map_str {elems : List Json}
    (hall : ∀ elem ∈ elems, elem.asStr.isSome = true) :
  ∃ strings : List Text, elems = strings.map str
  := by
  induction elems with
  | nil => exact ⟨[], rfl⟩
  | cons elem elems ih =>
    rw [List.forall_mem_cons] at hall
    obtain ⟨strings, rfl⟩ := ih hall.2
    cases elem with
    | str s => exact ⟨s :: strings, rfl⟩
    | null | bool | num | arr | obj => cases hall.1

theorem Json.filterMap_asStr (strings : List Text) :
  (strings.map str).filterMap asStr = strings
  := by
  induction strings with
  | nil => rfl
  | cons s strings ih => rw [map_cons, filterMap_cons, asStr, ih]

theorem Role.exists_strings_of_validateParams (hparam : role.validateParams params = .ok ())
    {name : Text} {elems : List Json} (hget : params.get name = some (.arr elems)) :
  ∃ strings : List Text, elems = strings.map str
  := by
  cases params with
  | obj fields =>
    obtain ⟨_, _, hfields, _⟩ := lookup_eq_some_iff.mp hget
    have hfield : (name, arr elems) ∈ fields := by
      simp [hfields]
    obtain ⟨t, hadmit⟩ := exists_admits_of_validateParams hparam hfield
    apply exists_eq_map_str
    cases t with
    | string | path => cases hadmit
    | stringList => exact all_eq_true.mp hadmit
  | null | bool | num | str | arr => cases hget

/-- A template is expanded completely exactly when none of its texts hides a name in braces behind
empty ones. -/
theorem expandsCompletely_iff (hparams : role.validateParams params = .ok ()) :
  ExpandsCompletely toText template params
    ↔ ∀ rendered ∈ renderings toText template params, ¬ HidesTemplateToken rendered
  := by
  constructor
  · intro hcom rendered hmem hhides
    apply hcom.resolved rendered _ hhides.hasTemplateToken
    rw [expandCapability_eq, List.mem_filter]
    refine ⟨hmem, ?_⟩
    rw [Bool.not_eq_true', ← Bool.not_eq_true, hasUnresolvedTemplateToken_iff]
    rintro ⟨-, hnot⟩
    exact hnot hhides
  · intro hnone
    have hkept : expandCapability toText template params
        = (renderings toText template params).filter
            (fun rendered => ¬ HasTemplateToken rendered) := by
      rw [expandCapability_eq]
      apply List.filter_congr
      intro rendered hmem
      rw [Bool.eq_iff_iff, Bool.not_eq_true', ← Bool.not_eq_true, hasUnresolvedTemplateToken_iff,
        decide_eq_true_eq, and_iff_left (hnone rendered hmem)]
    constructor
    case resolved =>
      intro rendered hmem
      rw [hkept, List.mem_filter] at hmem
      simpa using hmem.2
    case elements =>
      intro before name after elems hfirst hget
      obtain ⟨strings, rfl⟩ := Role.exists_strings_of_validateParams hparams hget
      refine ⟨strings, rfl, ?_⟩
      rw [hkept, renderings, findArrayToken_eq_some_iff.mpr hfirst]
      dsimp only
      rw [hget, Option.bind_some, Json.asArray]
      dsimp only
      rw [Json.filterMap_asStr]

def archivist : Role where
  name := "archivist".toList
  model := "small".toList
  parameters :=
    ((∅ : Table _ _).insert "inputs".toList ⟨.stringList, true⟩).insert "workspace".toList
      ⟨.path, false⟩
  capabilities := []
  systemPrompt := "read".toList
  messageTemplate := "read".toList
  budget := ⟨1000⟩

def archiveTemplate : Text := "file_read: \x7binputs.*\x7d/\x7bworkspace\x7d"

theorem findArrayToken_archiveTemplate :
  findArrayToken archiveTemplate
    = some ("file_read: ".toList, "inputs".toList, "/\x7bworkspace\x7d".toList)
  := by
  have htem : archiveTemplate = "file_read: ".toList
      ++ '{' :: ("inputs".toList ++ ".*".toList ++ '}' :: "/\x7bworkspace\x7d".toList) := by
    decide
  rw [htem, findArrayToken_eq_some_iff]
  apply FirstArrayToken.here <;> decide

def archiveParams : Json :=
  .obj [("inputs", .arr [.str "/a", .str "/b"]),
    ("workspace", .str "w")]

/-- Two inputs give two capabilities. -/
theorem expandsCompletely_archiveParams :
  archivist.validateParams archiveParams = .ok ()
    ∧ ExpandsCompletely (fun _ => []) archiveTemplate archiveParams
  := by
  have hparam : archivist.validateParams archiveParams = .ok () := by
    decide
  have hren : renderings (fun _ => []) archiveTemplate archiveParams
      = ["file_read: /a/w".toList, "file_read: /b/w".toList] := by
    rw [renderings, findArrayToken_archiveTemplate]
    decide
  refine ⟨hparam, ?_⟩
  apply (expandsCompletely_iff hparam).mpr
  rw [hren]
  intro rendered hmem hhides
  have htoken := hhides.hasTemplateToken
  revert htoken
  simp only [List.mem_cons, List.not_mem_nil, or_false] at hmem
  obtain rfl | rfl := hmem <;> decide

def bracesParams : Json := .obj [("inputs", .arr [.str "\x7b\x7d"])]

/-- With a pair of braces as an input, a capability is granted for a path with the name of the
missing parameter. -/
theorem not_expandsCompletely_bracesParams :
  archivist.validateParams bracesParams = .ok ()
    ∧ expandCapability (fun _ => []) archiveTemplate bracesParams
      = ["file_read: \x7b\x7d/\x7bworkspace\x7d".toList]
    ∧ ¬ ExpandsCompletely (fun _ => []) archiveTemplate bracesParams
  := by
  have hparam : archivist.validateParams bracesParams = .ok () := by
    decide
  have hexp : expandCapability (fun _ => []) archiveTemplate bracesParams
      = ["file_read: \x7b\x7d/\x7bworkspace\x7d".toList] := by
    rw [expandCapability, findArrayToken_archiveTemplate]
    decide
  refine ⟨hparam, hexp, ?_⟩
  intro hcom
  have hres := hcom.resolved "file_read: \x7b\x7d/\x7bworkspace\x7d".toList (by
    rw [hexp]
    apply List.mem_singleton_self)
  revert hres
  decide

end Expansion
