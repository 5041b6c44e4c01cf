import AaOS.Lib.Template
import AaOS.Plan.Role

/-!
# Substitution of parameters

`substitute_tokens` and `render_message` of `aaos-runtime/src/plan/role.rs` replace the names of
the parameters one after the other, so a value that holds a name in braces is substituted again if
the name is visited later.  The parameters are put in at once exactly when, at every visit, the
name is met as often as it is a token of the template, or has itself in braces as its value.
-/

open List

open Template

section Substitution

variable {toText : Json → Text} {template : Text} {fields visited : List (Text × Json)}

def valuesOf (toText : Json → Text) (visited : List (Text × Json)) (name : Text) : Option Text :=
  (visited.lookup name).map (renderValue toText)

/-- Some of the parameters, each at most once, in some order. -/
structure Visit (fields visited : List (Text × Json)) : Prop where
  subset : visited ⊆ fields
  nodup : (visited.map Prod.fst).Nodup

/-- Whichever parameters have been visited, the text is the template with their values in place of
their tokens. -/
structure SubstitutesAtOnce (toText : Json → Text) (template : Text)
    (fields : List (Text × Json)) : Prop where
  text : ∀ visited, Visit fields visited →
    substituteTokens toText template (.obj visited)
      = fill (valuesOf toText visited) (parse template)
  message : ∀ visited, Visit fields visited → ∀ role : Role, role.messageTemplate = template →
    role.renderMessage toText (.obj visited) = fill (valuesOf toText visited) (parse template)

/-- The name of the next parameter is met as often as it is a token, or is its own value in braces.
-/
def MetAsToken (toText : Json → Text) (template : Text) (visited : List (Text × Json))
    (field : Text × Json) : Prop :=
  renderValue toText field.2 = braced field.1
    ∨ Text.count (braced field.1) (fill (valuesOf toText visited) (parse template))
      = tokenCount field.1 template

/-! ### One more parameter -/

variable {field : Text × Json}

theorem Visit.init (hvisit : Visit fields (visited ++ [field])) :
  Visit fields visited ∧ field ∈ fields ∧ field.1 ∉ visited.map Prod.fst
  := by
  obtain ⟨hsub, hnodup⟩ := hvisit
  rw [map_append, map_singleton, ← concat_eq_append, nodup_concat] at hnodup
  refine ⟨⟨?_, hnodup.2⟩, ?_, hnodup.1⟩
  · intro other hother
    apply hsub (mem_append_left _ hother)
  · apply hsub
    simp

theorem Visit.concat (hvisit : Visit fields visited) (hfield : field ∈ fields)
    (hnew : field.1 ∉ visited.map Prod.fst) :
  Visit fields (visited ++ [field])
  := by
  constructor
  case subset =>
    intro other hother
    obtain hother | hother := mem_append.mp hother
    · apply hvisit.subset hother
    · rwa [mem_singleton.mp hother]
  case nodup =>
    rw [map_append, map_singleton, ← concat_eq_append, nodup_concat]
    exact ⟨hnew, hvisit.nodup⟩

theorem substituteTokens_concat (toText : Json → Text) (template : Text)
    (visited : List (Text × Json)) (field : Text × Json) :
  substituteTokens toText template (.obj (visited ++ [field]))
    = Text.replace (braced field.1) (renderValue toText field.2)
        (substituteTokens toText template (.obj visited))
  := by
  simp only [substituteTokens, Json.asObject, foldl_append]
  rfl

theorem valuesOf_concat (hnew : field.1 ∉ visited.map Prod.fst) :
  valuesOf toText visited field.1 = none
    ∧ valuesOf toText (visited ++ [field]) field.1 = some (renderValue toText field.2)
    ∧ ∀ other, other ≠ field.1 →
      valuesOf toText (visited ++ [field]) other = valuesOf toText visited other
  := by
  obtain ⟨name, value⟩ := field
  have hnone : visited.lookup name = none := by
    rw [lookup_eq_none_iff]
    intro other hother
    rw [bne_iff_ne]
    intro heq
    apply hnew
    rw [heq]
    apply mem_map_of_mem hother
  unfold valuesOf
  refine ⟨?_, ?_, ?_⟩
  · rw [hnone]
    rfl
  · rw [lookup_append, hnone, lookup_cons_self]
    rfl
  · intro other hne
    have hother : [(name, value)].lookup other = none := by
      rw [lookup_cons, beq_false_of_ne hne]
      rfl
    rw [lookup_append, hother, Option.or_none]

theorem replace_eq_fill_iff (hnew : field.1 ∉ visited.map Prod.fst) :
  Text.replace (braced field.1) (renderValue toText field.2)
      (fill (valuesOf toText visited) (parse template))
    = fill (valuesOf toText (visited ++ [field])) (parse template)
    ↔ MetAsToken toText template visited field
  := by
  obtain ⟨hnone, hsome, hoths⟩ := valuesOf_concat hnew
  apply replace_fill_iff hnone hsome hoths

theorem substitutesAtOnce_of_metAsToken
    (hmet : ∀ visited, Visit fields visited → ∀ field ∈ fields, field.1 ∉ visited.map Prod.fst →
      MetAsToken toText template visited field) :
  SubstitutesAtOnce toText template fields
  := by
  have htext : ∀ visited, Visit fields visited →
      substituteTokens toText template (.obj visited)
        = fill (valuesOf toText visited) (parse template) := by
    intro visited hvisit
    induction visited using reverseRecOn with
    | nil => apply (fill_parse template).symm
    | append_singleton visited field ih =>
      obtain ⟨hvisit, hfield, hnew⟩ := hvisit.init
      rw [substituteTokens_concat, ih hvisit, replace_eq_fill_iff hnew]
      apply hmet visited hvisit field hfield hnew
  constructor
  case text => apply htext
  case message =>
    rintro visited hvisit role rfl
    apply htext visited hvisit

/-- The parameters are put in at once, in every visit, exactly when the next name is always met as a
token. -/
theorem substitutesAtOnce_iff :
  SubstitutesAtOnce toText template fields
    ↔ ∀ visited, Visit fields visited → ∀ field ∈ fields, field.1 ∉ visited.map Prod.fst →
      MetAsToken toText template visited field
  := by
  constructor
  · intro honce visited hvisit field hfield hnew
    rw [← replace_eq_fill_iff hnew, ← honce.text visited hvisit,
      ← honce.text _ (hvisit.concat hfield hnew), substituteTokens_concat]
  · apply substitutesAtOnce_of_metAsToken

/-- Two parameters, the first of which has the name of the second in braces as its value. -/
def nestedFields : List (Text × Json) :=
  [("a", .str "\x7bb\x7d"), ("b", .str "x")]

/-- The value of a parameter is substituted again, unless the other parameter is visited first. -/
theorem not_substitutesAtOnce_nested :
  substituteTokens (fun _ => []) "\x7ba\x7d".toList (.obj nestedFields) = "x".toList
    ∧ substituteTokens (fun _ => []) "\x7ba\x7d".toList (.obj nestedFields.reverse)
      = "\x7bb\x7d".toList
    ∧ ¬ SubstitutesAtOnce (fun _ => []) "\x7ba\x7d".toList nestedFields
  := by
  have hagain : substituteTokens (fun _ => []) "\x7ba\x7d" (.obj nestedFields)
      = "x" := by
    decide
  refine ⟨hagain, by decide, ?_⟩
  intro honce
  have heq := honce.text nestedFields ⟨fun _ => id, by decide⟩
  rw [hagain] at heq
  revert heq
  decide

end Substitution
