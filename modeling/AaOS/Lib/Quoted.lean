import AaOS.Lib.Text

/-!
# Double-quoted scalars

A double-quoted scalar of YAML ends at the first quote that is not escaped, and its line breaks are
folded.  `scan` reads a scalar from the text after its opening quote, as `libyaml` does.  A text
whose quotes alone are escaped is read back as it was when it has neither a backslash nor a line
break.
-/

open List

namespace Quoted

def isBreak (c : Char) : Bool :=
  c = '\n' || c = '\r' || c = '\u0085' || c = '\u2028' || c = '\u2029'

/-- How far the scalar has been read; the Boolean says that the last character was a carriage
return.  The first of several breaks is kept apart, and is missing when it was escaped. -/
inductive Mode where
  | line (ws : Text)
  | broken (leading trailing : Text) (cr : Bool)
  | escape
  | hex (digits value : Nat)

/-- The characters that a single character after a backslash stands for. -/
def escapes : List (Char × Char) :=
  [('0', '\x00'), ('a', '\x07'), ('b', '\x08'), ('t', '\t'), ('\t', '\t'), ('n', '\n'),
    ('v', '\x0b'), ('f', '\x0c'), ('r', '\r'), ('e', '\x1b'), (' ', ' '), ('"', '"'),
    ('/', '/'), ('\\', '\\'), ('N', '\u0085'), ('_', '\u00a0'), ('L', '\u2028'),
    ('P', '\u2029')]

def hexDigit (c : Char) : Option Nat :=
  if '0' ≤ c ∧ c ≤ '9' then some (c.toNat - '0'.toNat)
  else if 'a' ≤ c ∧ c ≤ 'f' then some (c.toNat - 'a'.toNat + 10)
  else if 'A' ≤ c ∧ c ≤ 'F' then some (c.toNat - 'A'.toNat + 10)
  else none

namespace Mode

/-- What the pending white space and line breaks stand for. -/
def flush : Mode → Text
  | line ws => ws
  | broken ['\n'] [] _ => [' ']
  | broken ['\n'] trailing _ => trailing
  | broken leading trailing _ => leading ++ trailing
  | escape | hex .. => []

/-- The mode after white space. -/
def blank (c : Char) : Mode → Mode
  | line ws => line (ws ++ [c])
  | broken leading trailing _ => broken leading trailing false
  | mode => mode

/-- The line and paragraph separators are kept, other breaks become line feeds. -/
def breakText (c : Char) : Text := if c = '\u2028' ∨ c = '\u2029' then [c] else ['\n']

/-- The mode after a break; a carriage return and a line feed make a single one together. -/
def newline (c : Char) : Mode → Mode
  | line _ => broken (breakText c) [] (c = '\r')
  | broken leading trailing cr =>
    if cr ∧ c = '\n' then broken leading trailing false
    else broken leading (trailing ++ breakText c) (c = '\r')
  | mode => mode

/-- Read a character after a backslash. -/
def stepEscape (c : Char) : Option (Text × Option Mode) :=
  if isBreak c then some ([], some (broken [] [] (c = '\r')))
  else if c = 'x' then some ([], some (hex 1 0))
  else if c = 'u' then some ([], some (hex 3 0))
  else if c = 'U' then some ([], some (hex 7 0))
  else (escapes.lookup c).map (fun d => ([d], some (line [])))

/-- Read a digit of a numeric escape, after which `digits` digits are left. -/
def stepHex (digits value : Nat) (c : Char) : Option (Text × Option Mode) :=
  match hexDigit c, digits with
  | none, _ => none
  | some d, digits + 1 => some ([], some (hex digits (16 * value + d)))
  | some d, 0 =>
    if Nat.isValidChar (16 * value + d) then
      some ([Char.ofNat (16 * value + d)], some (line []))
    else none

def stepText (mode : Mode) (c : Char) : Option (Text × Option Mode) :=
  if c = '"' then some (mode.flush, none)
  else if c = '\\' then some (mode.flush, some escape)
  else if isBreak c then some ([], some (mode.newline c))
  else if c = ' ' ∨ c = '\t' then some ([], some (mode.blank c))
  else some (mode.flush ++ [c], some (line []))

/-- The part of the value that a character completes and the next mode, missing at the closing
quote. -/
def step : Mode → Char → Option (Text × Option Mode)
  | escape, c => stepEscape c
  | hex digits value, c => stepHex digits value c
  | mode, c => mode.stepText c

end Mode

/-- Read a scalar from a mode: its value, and the text after the closing quote. -/
def scanFrom : Mode → Text → Option (Text × Text)
  | _, [] => none
  | mode, c :: rest =>
    match mode.step c with
    | none => none
    | some (out, none) => some (out, rest)
    | some (out, some mode) => (scanFrom mode rest).map (fun (v, rest) => (out ++ v, rest))

/-- Read a scalar from the text after its opening quote. -/
def scan (s : Text) : Option (Text × Text) := scanFrom (.line []) s

def escapeQuotes (s : Text) : Text := s.flatMap (fun c => if c = '"' then ['\\', '"'] else [c])

/-- The text has neither a backslash nor a line break. -/
def Clean (s : Text) : Prop := ∀ c ∈ s, c ≠ '\\' ∧ isBreak c = false

variable {c : Char} {mode : Mode} {s v rest ws : Text}

theorem escapeQuotes_of_ne (hquote : c ≠ '"') (s : Text) :
  escapeQuotes (c :: s) = c :: escapeQuotes s
  := by
  simp [escapeQuotes, hquote]

theorem Mode.step_line (hquote : c ≠ '"') (hslash : c ≠ '\\') (hbreak : isBreak c = false) :
  (line ws).step c
    = if c = ' ' ∨ c = '\t' then some ([], some (line (ws ++ [c])))
      else some (ws ++ [c], some (line []))
  := by
  rw [step, stepText, if_neg hquote, if_neg hslash, hbreak]
  · rfl
  all_goals simp

theorem scanFrom_of_clean (hclean : Clean s) (tail : Text) :
  scanFrom (.line ws) (escapeQuotes s ++ '"' :: tail) = some (ws ++ s, tail)
  := by
  induction s generalizing ws with
  | nil => simp [escapeQuotes, scanFrom, Mode.step, Mode.stepText, Mode.flush]
  | cons c s ih =>
    obtain ⟨⟨hslash, hbreak⟩, hrest⟩ := forall_mem_cons.mp hclean
    by_cases hquote : c = '"'
    · subst hquote
      change ((scanFrom (.line []) (escapeQuotes s ++ '"' :: tail)).map _).map _ = _
      rw [ih hrest]
      simp [Mode.flush]
    · rw [escapeQuotes_of_ne hquote, cons_append, scanFrom, Mode.step_line hquote hslash hbreak]
      split_ifs
      all_goals simp [ih hrest]

theorem scan_of_clean (hclean : Clean s) (tail : Text) :
  scan (escapeQuotes s ++ '"' :: tail) = some (s, tail)
  := scanFrom_of_clean hclean tail

theorem scanFrom_append (h : scanFrom mode s = some (v, rest)) (t : Text) :
  scanFrom mode (s ++ t) = some (v, rest ++ t)
  := by
  induction s generalizing mode v with
  | nil => cases h
  | cons c s ih =>
    rw [scanFrom] at h
    rw [cons_append, scanFrom]
    rcases hstep : mode.step c with _ | ⟨out, _ | mode'⟩
    · rw [hstep] at h
      cases h
    · rw [hstep] at h
      cases h
      rfl
    · rw [hstep] at h
      obtain ⟨⟨v', rest'⟩, hscan, heq⟩ := Option.map_eq_some_iff.mp h
      cases heq
      simp [ih hscan]

end Quoted
