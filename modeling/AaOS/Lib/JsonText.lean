import AaOS.Lib.Nesting
import AaOS.Lib.Text

/-!
# The grammar of JSON

`Derives Str symbol s` says that `s` is derived from a symbol of the grammar of JSON, where `Str`
says what may stand between the quotes of a string.  In a text all of whose strings are without
braces, every object is enclosed by its braces.
-/

open List

namespace JsonText

/-! ### Strings and numbers -/

def IsSpace (s : Text) : Prop := ∀ c ∈ s, c ∈ [' ', '\t', '\n', '\r']

inductive StringUnit : Text → Prop
  | plain {c : Char} (hquote : c ≠ '"') (hescape : c ≠ '\\') (hcontrol : 0x20 ≤ c.toNat) :
    StringUnit [c]
  | escape {c} (hc : c ∈ "\"\\/bfnrt".toList) : StringUnit ['\\', c]
  | unicode {digits : Text} (hlength : digits.length = 4)
      (hdigits : ∀ c ∈ digits, c ∈ "0123456789abcdefABCDEF".toList) :
      StringUnit ('\\' :: 'u' :: digits)

/-- What may stand between the quotes of a string. -/
inductive Content : Text → Prop
  | nil : Content []
  | cons {unit rest} (hunit : StringUnit unit) (hrest : Content rest) :
    Content (unit ++ rest)

def IsDigits (s : Text) : Prop := s ≠ [] ∧ ∀ c ∈ s, c ∈ "0123456789".toList

/-- A number: a sign, an integer without leading zeros, a fraction and an exponent. -/
def IsNumber (s : Text) : Prop :=
  ∃ minus integer fraction exponent : Text, s = minus ++ (integer ++ (fraction ++ exponent))
    ∧ (minus = [] ∨ minus = ['-'])
    ∧ IsDigits integer ∧ (integer.head? = some '0' → integer = ['0'])
    ∧ (fraction = [] ∨ ∃ digits, fraction = '.' :: digits ∧ IsDigits digits)
    ∧ (exponent = [] ∨ ∃ e sign digits, exponent = e :: (sign ++ digits) ∧ (e = 'e' ∨ e = 'E')
      ∧ (sign = [] ∨ sign = ['+'] ∨ sign = ['-']) ∧ IsDigits digits)

/-! ### Values -/

inductive Symbol where
  | value
  | object
  | array
  | member
  | members
  | element
  | elements

/-- The texts that are derived from a symbol. -/
inductive Derives (Str : Text → Prop) : Symbol → Text → Prop
  | literal {s} (hs : s ∈ ["true".toList, "false".toList, "null".toList]) :
      Derives Str .value s
  | number {s} (hs : IsNumber s) : Derives Str .value s
  | string {s} (hs : Str s) : Derives Str .value ('"' :: (s ++ ['"']))
  | objectValue {s} (hs : Derives Str .object s) : Derives Str .value s
  | arrayValue {s} (hs : Derives Str .array s) : Derives Str .value s
  | emptyObject {s} (hs : IsSpace s) : Derives Str .object ('{' :: (s ++ ['}']))
  | object {s} (hs : Derives Str .members s) : Derives Str .object ('{' :: (s ++ ['}']))
  | emptyArray {s} (hs : IsSpace s) : Derives Str .array ('[' :: (s ++ [']']))
  | array {s} (hs : Derives Str .elements s) : Derives Str .array ('[' :: (s ++ [']']))
  | member {before name after s} (hbefore : IsSpace before) (hname : Str name)
      (hafter : IsSpace after) (hs : Derives Str .element s) :
      Derives Str .member (before ++ '"' :: (name ++ '"' :: (after ++ ':' :: s)))
  | lastMember {s} (hs : Derives Str .member s) : Derives Str .members s
  | members {s t} (hs : Derives Str .member s) (ht : Derives Str .members t) :
      Derives Str .members (s ++ ',' :: t)
  | element {before s after} (hbefore : IsSpace before) (hs : Derives Str .value s)
      (hafter : IsSpace after) : Derives Str .element (before ++ (s ++ after))
  | lastElement {s} (hs : Derives Str .element s) : Derives Str .elements s
  | elements {s t} (hs : Derives Str .element s) (ht : Derives Str .elements t) :
      Derives Str .elements (s ++ ',' :: t)

def IsObject (s : Text) : Prop := Derives Content .object s

/-- A JSON text: a value, with white space around it. -/
def IsText (s : Text) : Prop := Derives Content .element s

/-- The content of a string without braces. -/
def BraceFree (s : Text) : Prop := Content s ∧ '{' ∉ s ∧ '}' ∉ s

/-! ### Braces -/

open Nesting

variable {s : Text}

theorem level_cons {x : Char} (ho : x ≠ '{') (hc : x ≠ '}') (hs : Level '{' '}' s) :
  Level '{' '}' (x :: s)
  := by
  apply Level.append (s := [x]) _ hs
  apply level_of_not_mem
  · simpa using ho.symm
  · simpa using hc.symm

theorem level_of_isSpace (hs : IsSpace s) : Level '{' '}' s := by
  apply level_of_not_mem
  all_goals
    intro hmem
    exact absurd (hs _ hmem) (by decide)

theorem IsDigits.level (hs : IsDigits s) : Level '{' '}' s := by
  apply level_of_not_mem
  all_goals
    intro hmem
    exact absurd (hs.2 _ hmem) (by decide)

theorem level_of_isNumber (hs : IsNumber s) : Level '{' '}' s := by
  obtain ⟨minus, integer, fraction, exponent, rfl, hminus, hint, -, hfrac, hexp⟩ := hs
  have hnil : Level '{' '}' ([] : Text) := level_of_not_mem (by simp) (by simp)
  apply Level.append
  · obtain rfl | rfl := hminus
    · exact hnil
    · apply level_of_not_mem <;> decide
  apply hint.level.append
  apply Level.append
  · obtain rfl | ⟨digits, rfl, hdigit⟩ := hfrac
    · exact hnil
    · apply level_cons (by decide) (by decide) hdigit.level
  · obtain rfl | ⟨e, sign, digits, rfl, he, hsign, hdigit⟩ := hexp
    · exact hnil
    · apply level_cons
      · obtain rfl | rfl := he <;> decide
      · obtain rfl | rfl := he <;> decide
      · apply Level.append _ hdigit.level
        obtain rfl | rfl | rfl := hsign <;> apply level_of_not_mem <;> decide

theorem Derives.level {symbol : Symbol} (hs : Derives BraceFree symbol s) :
  Level '{' '}' s
  := by
  have hquote : ∀ {name rest : Text}, BraceFree name → Level '{' '}' rest →
      Level '{' '}' ('"' :: (name ++ '"' :: rest)) := by
    rintro name rest ⟨-, ho, hc⟩ hrest
    apply level_cons (by decide) (by decide)
    apply (level_of_not_mem ho hc).append
    apply level_cons (by decide) (by decide) hrest
  have hnil : Level '{' '}' ([] : Text) := level_of_not_mem (by simp) (by simp)
  have hlast : ∀ {x : Char} {s : Text}, x ≠ '{' → x ≠ '}' → Level '{' '}' s →
      Level '{' '}' (s ++ [x]) := by
    intro x s ho hc hs
    apply hs.append (level_cons ho hc hnil)
  induction hs with
  | literal hs =>
    apply level_of_not_mem
    all_goals
      simp only [mem_cons, not_mem_nil, or_false] at hs
      obtain rfl | rfl | rfl := hs <;> decide
  | number hs => apply level_of_isNumber hs
  | string hs => apply hquote hs hnil
  | objectValue _ ih | arrayValue _ ih | lastMember _ ih | lastElement _ ih => apply ih
  | emptyObject hs => apply ((level_of_isSpace hs).enclosed (by decide)).level
  | object _ ih => apply (ih.enclosed (by decide)).level
  | emptyArray hs =>
    apply level_cons (by decide) (by decide)
    apply hlast (by decide) (by decide) (level_of_isSpace hs)
  | array _ ih =>
    apply level_cons (by decide) (by decide)
    apply hlast (by decide) (by decide) ih
  | member hbef hname hafter _ ih =>
    apply (level_of_isSpace hbef).append
    apply hquote hname
    apply (level_of_isSpace hafter).append
    apply level_cons (by decide) (by decide) ih
  | members _ _ ihs iht | elements _ _ ihs iht =>
    apply ihs.append
    apply level_cons (by decide) (by decide) iht
  | element hbef _ hafter ih =>
    apply (level_of_isSpace hbef).append
    apply ih.append (level_of_isSpace hafter)

theorem Derives.enclosed (hs : Derives BraceFree .object s) : Enclosed '{' '}' s := by
  cases hs with
  | emptyObject hs => apply (level_of_isSpace hs).enclosed (by decide)
  | object hs => apply hs.level.enclosed (by decide)

/-! ### Objects among texts -/

theorem Derives.exists_object_eq {Str : Text → Prop} (hs : Derives Str .object s) :
  ∃ inner, s = '{' :: (inner ++ ['}'])
  := by
  cases hs with
  | emptyObject _ => exact ⟨_, rfl⟩
  | object _ => exact ⟨_, rfl⟩

theorem Derives.object_of_value {Str : Text → Prop} {rest : Text}
    (hs : Derives Str .value ('{' :: rest)) :
  Derives Str .object ('{' :: rest)
  := by
  generalize hsym : Symbol.value = symbol at hs
  generalize htext : '{' :: rest = s at hs ⊢
  cases hs with
  | literal hs =>
    subst htext
    simp at hs
  | number hs =>
    obtain ⟨minus, integer, fraction, exponent, rfl, hminus, ⟨hne, hdigit⟩, -⟩ := hs
    obtain rfl | rfl := hminus
    · obtain ⟨c, integer, rfl⟩ := exists_cons_of_ne_nil hne
      cases htext
      exact absurd (hdigit '{' mem_cons_self) (by decide)
    · cases htext
  | string hs => cases htext
  | objectValue hs => exact hs
  | arrayValue hs => cases hs <;> cases htext
  | _ => cases hsym

theorem IsText.isObject {inner : Text} (hs : IsText ('{' :: (inner ++ ['}']))) :
  IsObject ('{' :: (inner ++ ['}']))
  := by
  unfold IsText at hs
  generalize htext : '{' :: (inner ++ ['}']) = s at hs
  cases hs with
  | @element before s after hbef hs hafter =>
    have hbefore_nil : before = [] := by
      by_contra hne
      obtain ⟨c, before, rfl⟩ := exists_cons_of_ne_nil hne
      obtain rfl : '{' = c := head_eq_of_cons_eq htext
      exact absurd (hbef '{' mem_cons_self) (by decide)
    have hafter_nil : after = [] := by
      by_contra hne
      obtain ⟨init, c, rfl⟩ := (eq_nil_or_concat' after).resolve_left hne
      have hlast := congrArg getLast? htext
      simp only [← append_assoc, ← cons_append, getLast?_concat, Option.some.injEq] at hlast
      exact absurd (hafter c (by simp)) (by rw [← hlast]; decide)
    subst hbefore_nil hafter_nil
    rw [nil_append, append_nil] at htext ⊢
    subst htext
    apply hs.object_of_value

theorem content_of_plain (hs : ∀ c ∈ s, c ≠ '"' ∧ c ≠ '\\' ∧ 0x20 ≤ c.toNat) :
  Content s
  := by
  induction s with
  | nil => exact .nil
  | cons c s ih =>
    obtain ⟨⟨hquote, hesc, hcon⟩, hrest⟩ := List.forall_mem_cons.mp hs
    exact .cons (.plain hquote hesc hcon) (ih hrest)

theorem isObject_string {name content : Text} (hname : Content name) (hcon : Content content) :
  IsObject ('{' :: ('"' :: (name ++ '"' :: ':' :: '"' :: (content ++ ['"'])) ++ ['}']))
  := by
  have hspace : IsSpace [] := by
    intro c hc
    cases hc
  have helem : Derives Content .element ('"' :: (content ++ ['"'])) := by
    have h := Derives.element hspace (Derives.string hcon) hspace
    simpa using h
  exact .object (.lastMember (.member hspace hname hspace helem))

end JsonText
