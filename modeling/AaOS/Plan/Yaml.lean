import AaOS.Core.Manifest
import AaOS.Lib.Quoted
import AaOS.Plan.Role

/-!
# Manifests in YAML

The form of the manifests that are written for roles: a header with the name, the model
and the system prompt of the agent, and a list of capabilities in double quotes.  The
reader of YAML is a parameter, of which we assume how it reads what follows the header.
-/

open Quoted

/-! ### YAML texts -/

/-- The characters that have a meaning at the start of a scalar. -/
def isIndicator (c : Char) : Bool := "-?:,[]\x7b\x7d#&*!|>'\"%@`".toList.contains c

section WellFormed

variable (accepts : Char → Bool)

/-- The character may stand in a line of a plain or a literal scalar. -/
def isPrintable (c : Char) : Bool := accepts c && !isBreak c && c ≠ '\ufeff'

/-- The text is a plain scalar on a single line. -/
structure IsPlainScalar (s : Text) : Prop where
  printable : ∀ c ∈ s, isPrintable accepts c = true
  head : ∃ c ∈ s.head?, c ≠ ' ' ∧ c ≠ '\t' ∧ isIndicator c = false
  last : ∀ c ∈ s.getLast?, c ≠ ' ' ∧ c ≠ '\t' ∧ c ≠ ':'
  no_comment : ¬ [' ', '#'] <:+: s ∧ ¬ ['\t', '#'] <:+: s
  no_key : ¬ [':', ' '] <:+: s ∧ ¬ [':', '\t'] <:+: s
  not_null : s ∉ ["~".toList, "null".toList, "Null".toList, "NULL".toList]

/-- The lines of the text, when indented, make a literal scalar with this indentation. -/
structure IsLiteralScalar (s : Text) : Prop where
  printable : ∀ c ∈ s, c = '\n' ∨ isPrintable accepts c = true
  head : ∃ c ∈ s.head?, c ≠ ' ' ∧ c ≠ '\t' ∧ c ≠ '\n'

/-- The part of a manifest before its capabilities. -/
structure ManifestHeader where
  name : Text
  model : Text
  systemPrompt : Text

/-- The scalars of the header are well formed. -/
structure ManifestHeader.WellFormed (header : ManifestHeader) : Prop where
  name : IsPlainScalar accepts header.name
  model : IsPlainScalar accepts header.model
  systemPrompt : IsLiteralScalar accepts header.systemPrompt

end WellFormed

/-- The text of the header. -/
def ManifestHeader.text (header : ManifestHeader) : Text :=
  Text.line ("name: " ++ header.name)
    ++ Text.line ("model: " ++ header.model)
    ++ Text.line "system_prompt: |"
    ++ Text.line (indent header.systemPrompt "  ")
    ++ Text.line "capabilities:"

def itemStart : Text := "  - \""

def itemText (value : Text) : Text := itemStart ++ (escapeQuotes value ++ ['"'])

def itemsText (values : List Text) : Text := values.flatMap (fun v => Text.line (itemText v))

/-- A reader of manifests, with the characters it accepts.  After the header the capabilities are
the items that follow.  An item in quotes on a line of its own is read as the scalar there; in any
case an item that begins with a quote is the scalar that begins there, or a mapping. -/
structure YamlReader (header : ManifestHeader) where
  parse : Text → Except Text AgentManifest
  items : Text → Option (List CapabilityDeclaration)
  accepts : Char → Bool
  accepts_ascii : ∀ c, ' ' ≤ c → c ≤ '~' → accepts c = true
  items_of_parse : header.WellFormed accepts → ∀ {rest manifest},
    parse (header.text ++ rest) = .ok manifest → items rest = some manifest.capabilities
  parse_of_items : header.WellFormed accepts → ∀ {rest capabilities},
    items rest = some capabilities → ∃ manifest, parse (header.text ++ rest) = .ok manifest
      ∧ manifest.name = header.name ∧ manifest.model = header.model
      ∧ manifest.capabilities = capabilities
  items_nil : items [] = some []
  items_line : ∀ {body v rest : Text}, (∀ c ∈ body, isBreak c = false ∧ accepts c = true) →
    scan body = some (v, []) →
    items (itemStart ++ (body ++ '\n' :: rest)) = (items rest).map (.simple v :: ·)
  items_scan : ∀ {tail : Text} {capabilities}, items (itemStart ++ tail) = some capabilities →
    ∃ entry ∈ capabilities.head?, ∀ s, entry = .simple s → ∃ rest, scan tail = some (s, rest)

/-! ### Printable characters -/

theorem isPrintable_of_ascii {accepts : Char → Bool}
    (hacc : ∀ c, ' ' ≤ c → c ≤ '~' → accepts c = true) {c : Char} (hlow : ' ' ≤ c)
    (hhigh : c ≤ '~') :
  isPrintable accepts c = true
  := by
  have hbreak : isBreak c = false ∧ c ≠ '\ufeff' := by
    constructor
    · by_contra hbreak
      simp only [isBreak, Bool.not_eq_false, Bool.or_eq_true, decide_eq_true_eq] at hbreak
      obtain (((rfl | rfl) | rfl) | rfl) | rfl := hbreak <;> revert hlow hhigh <;> decide
    · rintro rfl
      revert hhigh
      decide
  simp [isPrintable, hacc c hlow hhigh, hbreak]
