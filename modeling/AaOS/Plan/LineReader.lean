import AaOS.Plan.Yaml

/-!
# Reading manifests line by line

A reader of the manifests with a given header that takes each line after it by itself: the scalars
in double quotes end on the line on which they begin.  It shows that the assumptions on readers of
YAML can be met.
-/

open List Text

open Quoted

namespace LineReader

def readItems : List Text → Option (List Text)
  | [] => none
  | line :: rest =>
    if line = [] ∧ rest = [] then some []
    else
      match (Text.stripPrefix itemStart line).bind scan with
      | some (v, []) => (readItems rest).map (v :: ·)
      | _ => none

/-- The manifest of a text. -/
def parse (header : ManifestHeader) (text : Text) : Except Text AgentManifest :=
  match (Text.stripPrefix header.text text).bind fun rest => readItems (rest.splitOn '\n') with
  | none => .error "not a manifest"
  | some values => .ok {
      name := header.name
      model := header.model
      systemPrompt := .inline header.systemPrompt
      capabilities := values.map .simple
      budgetConfig := none }

theorem splitOn_line {line : Text} (h : '\n' ∉ line) (rest : Text) :
  (Text.line line ++ rest).splitOn '\n' = line :: rest.splitOn '\n'
  := by
  rw [Text.line, append_assoc, splitOn_append h, singleton_append, splitOn_cons_eq_if_modifyHead]
  simp

theorem readItems_cons (body : Text) (rest : List Text) :
  readItems ((itemStart ++ body) :: rest)
    = match scan body with
      | some (v, []) => (readItems rest).map (v :: ·)
      | _ => none
  := by
  have hne : itemStart ++ body ≠ [] := append_ne_nil_of_left_ne_nil (by decide) _
  rw [readItems, if_neg (fun h => hne h.1), stripPrefix_append]
  rfl

theorem readItems_line {body v rest : Text} (hbody : '\n' ∉ body)
    (hscan : scan body = some (v, [])) :
  readItems ((itemStart ++ (body ++ '\n' :: rest)).splitOn '\n')
    = (readItems (rest.splitOn '\n')).map (v :: ·)
  := by
  have hline : '\n' ∉ itemStart ++ body := by
    rw [mem_append, not_or]
    exact ⟨by decide, hbody⟩
  have hsplit := splitOn_line hline rest
  rw [Text.line, append_assoc, append_assoc, singleton_append] at hsplit
  rw [hsplit, readItems_cons, hscan]

theorem scan_of_readItems {tail : Text} {values : List Text}
    (h : readItems ((itemStart ++ tail).splitOn '\n') = some values) :
  ∃ v values' rest, values = v :: values' ∧ scan tail = some (v, rest)
  := by
  obtain ⟨body, lines, hlines⟩ := exists_cons_of_ne_nil (splitOn_ne_nil '\n' tail)
  have hsplit : (itemStart ++ tail).splitOn '\n' = (itemStart ++ body) :: lines := by
    rw [splitOn_append (by decide), hlines, modifyHead_cons]
  have htail : ∃ after, tail = body ++ after := by
    have hjoin : ['\n'].intercalate (tail.splitOn '\n') = tail := intercalate_splitOn '\n'
    rw [hlines] at hjoin
    cases lines with
    | nil => exact ⟨[], by simpa using hjoin.symm⟩
    | cons line lines =>
      exact ⟨'\n' :: ['\n'].intercalate (line :: lines), by simpa using hjoin.symm⟩
  rw [hsplit, readItems_cons] at h
  obtain ⟨after, rfl⟩ := htail
  rcases hscan : scan body with _ | ⟨v, _ | ⟨c, rest⟩⟩
  · rw [hscan] at h
    cases h
  · rw [hscan] at h
    obtain ⟨values', _, rfl⟩ := Option.map_eq_some_iff.mp h
    exact ⟨v, values', after, rfl, scanFrom_append hscan after⟩
  · rw [hscan] at h
    cases h

/-- The reader that takes each line by itself. -/
def reader (header : ManifestHeader) : YamlReader header where
  parse := parse header
  items text := (readItems (text.splitOn '\n')).map (List.map .simple)
  accepts _ := true
  accepts_ascii _ _ _ := rfl
  items_of_parse := by
    intro _ rest manifest hparse
    rw [parse, stripPrefix_append, Option.bind_some] at hparse
    split at hparse
    · cases hparse
    · rename_i values hvalues
      cases hparse
      rw [hvalues, Option.map_some]
  parse_of_items := by
    intro _ rest capabilities hitems
    obtain ⟨values, hvalues, rfl⟩ := Option.map_eq_some_iff.mp hitems
    rw [parse, stripPrefix_append, Option.bind_some, hvalues]
    exact ⟨_, rfl, rfl, rfl, rfl⟩
  items_nil := rfl
  items_line := by
    intro body v rest hbody hscan
    rw [readItems_line _ hscan, Option.map_map, Option.map_map]
    · rfl
    · intro hmem
      cases (hbody _ hmem).1
  items_scan := by
    intro tail capabilities hitems
    obtain ⟨values, hvalues, rfl⟩ := Option.map_eq_some_iff.mp hitems
    obtain ⟨v, values', rest, rfl, hscan⟩ := scan_of_readItems hvalues
    refine ⟨.simple v, rfl, ?_⟩
    rintro s ⟨⟩
    use rest

end LineReader
