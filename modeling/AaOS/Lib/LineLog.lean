import AaOS.Lib.Utf8

/-!
# Logs of lines

A log has a value on every line.  Empty lines are skipped, and the first line that is not the text
of a value ends the reading with an error.  A log is read back as it was written.  A log that was
written only in part is read back, and can be appended to, exactly when it ends with a whole line.
-/

open List Text Utf8

/-- How values are written on lines. -/
structure LineCodec (α : Type) where
  print : α → Except Text Text
  parse : Text → Except Text α
  parse_print : ∀ {a text}, print a = .ok text → parse text = .ok a
  oneLine : ∀ {a text}, print a = .ok text → '\n' ∉ text
  trim_print : ∀ {a text}, print a = .ok text → text.trim = text
  print_ne_nil : ∀ {a text}, print a = .ok text → text ≠ []
  whitespace_of_append : ∀ {text rest a b}, parse text = .ok a → parse (text ++ rest) = .ok b →
    ∀ c ∈ rest, Text.isWhitespace c = true

namespace LineLog

/-! ### Lines of bytes -/

def lineFeed : UInt8 := 10

/-- The bytes of a line without a carriage return at its end. -/
def stripReturn (line : List UInt8) : List UInt8 :=
  if line.getLast? = some 13 then line.dropLast else line

/-- The lines of a file after the bytes of the line that has been begun. -/
def linesFrom (line : List UInt8) : List UInt8 → List (List UInt8)
  | [] => if line = [] then [] else [line]
  | b :: bytes =>
    if b = lineFeed then stripReturn line :: linesFrom [] bytes
    else linesFrom (line ++ [b]) bytes

/-- The lines of a file; the last one may have no end. -/
def lines (bytes : List UInt8) : List (List UInt8) := linesFrom [] bytes

variable {line : List UInt8}

variable (hline : lineFeed ∉ line)

include hline

theorem linesFrom_append {bytes : List UInt8} (start : List UInt8) :
  linesFrom start (line ++ bytes) = linesFrom (start ++ line) bytes
  := by
  induction line generalizing start with
  | nil => rw [nil_append, append_nil]
  | cons b line ih =>
    rw [mem_cons, not_or] at hline
    obtain ⟨hb, hline⟩ := hline
    rw [cons_append, linesFrom, if_neg (Ne.symm hb), ih hline, append_assoc]
    rfl

theorem lines_line (bytes : List UInt8) :
  lines (line ++ lineFeed :: bytes) = stripReturn line :: lines bytes
  := by
  rw [lines, linesFrom_append hline, linesFrom, if_pos rfl]
  rfl

theorem lines_last (hne : line ≠ []) :
  lines line = [line]
  := by
  have hlines : linesFrom [] (line ++ []) = linesFrom ([] ++ line) [] := linesFrom_append hline []
  rw [append_nil, nil_append, linesFrom, if_neg hne] at hlines
  apply hlines

end LineLog

namespace LineCodec

open LineLog

inductive ReadError where
  | notUtf8
  | parse (message : Text)

variable {α : Type} (codec : LineCodec α)

def readLines : List (List UInt8) → Except ReadError (List α)
  | [] => .ok []
  | line :: rest =>
    match Utf8.decode line with
    | none => .error .notUtf8
    | some text =>
      if text.trim = [] then readLines rest
      else
        match codec.parse text.trim with
        | .error message => .error (.parse message)
        | .ok a => (readLines rest).map (a :: ·)

/-- The values in a log. -/
def read (bytes : List UInt8) : Except ReadError (List α) := codec.readLines (lines bytes)

/-- The bytes that are written for values, and whether all of them could be printed. -/
def write : List α → Except Text Unit × List UInt8
  | [] => (.ok (), [])
  | a :: rest =>
    match codec.print a with
    | .error message => (.error message, [])
    | .ok text =>
      let (result, bytes) := write rest
      (result, Utf8.encode text ++ lineFeed :: bytes)

variable {codec}

/-! ### Whole lines -/

variable {text : Text} {a : α}

theorem lineFeed_notMem_encode (hprint : codec.print a = .ok text) :
  lineFeed ∉ encode text
  := by
  intro hmem
  apply codec.oneLine hprint
  apply mem_of_mem_encode hmem
  · decide
  · decide

theorem not_whitespace_print (hprint : codec.print a = .ok text) (hne : text ≠ []) :
  isWhitespace (text.head hne) = false ∧ isWhitespace (text.getLast hne) = false
  := by
  apply not_whitespace_of_trim_eq hne (codec.trim_print hprint)

theorem stripReturn_encode (hprint : codec.print a = .ok text) (start : Text) :
  stripReturn (encode (start ++ text)) = encode (start ++ text)
  := by
  have hne := codec.print_ne_nil hprint
  obtain ⟨-, hlast⟩ := not_whitespace_print hprint hne
  apply if_neg
  apply getLast?_encode_ne (c := '\r')
  · decide
  · decide
  · rw [getLast?_append_of_ne_nil _ hne, getLast?_eq_some_getLast hne]
    intro hret
    rw [Option.some.inj hret] at hlast
    cases hlast

theorem readLines_encode (hprint : codec.print a = .ok text) (rest : List (List UInt8)) :
  codec.readLines (encode text :: rest) = (codec.readLines rest).map (a :: ·)
  := by
  simp only [readLines, decode_encode, codec.trim_print hprint]
  rw [if_neg (codec.print_ne_nil hprint), codec.parse_print hprint]

theorem read_line (hprint : codec.print a = .ok text) (bytes : List UInt8) :
  codec.read (encode text ++ lineFeed :: bytes) = (codec.read bytes).map (a :: ·)
  := by
  have hstrip : stripReturn (encode text) = encode text := stripReturn_encode hprint []
  rw [read, lines_line (lineFeed_notMem_encode hprint), hstrip, readLines_encode hprint]
  rfl

variable {as : List α} {bytes : List UInt8}

theorem exists_write_cons (hwrite : codec.write (a :: as) = (.ok (), bytes)) :
  ∃ text rest, codec.print a = .ok text ∧ codec.write as = (.ok (), rest)
    ∧ bytes = encode text ++ lineFeed :: rest
  := by
  rw [write] at hwrite
  rcases hprint : codec.print a with message | text
  · rw [hprint] at hwrite
    cases hwrite
  · rw [hprint] at hwrite
    rcases hrest : codec.write as with ⟨result, rest⟩
    rw [hrest] at hwrite
    cases hwrite
    exact ⟨text, rest, rfl, rfl, rfl⟩

theorem read_write_append (hwrite : codec.write as = (.ok (), bytes)) (rest : List UInt8) :
  codec.read (bytes ++ rest) = (codec.read rest).map (as ++ ·)
  := by
  induction as generalizing bytes with
  | nil =>
    cases hwrite
    rw [nil_append]
    rcases codec.read rest <;> rfl
  | cons a as ih =>
    obtain ⟨text, bytes', hprint, hwrite', rfl⟩ := exists_write_cons hwrite
    rw [append_assoc, cons_append, read_line hprint, ih hwrite']
    rcases codec.read rest <;> rfl

theorem read_write (hwrite : codec.write as = (.ok (), bytes)) :
  codec.read bytes = .ok as
  := by
  have hread := read_write_append hwrite []
  rw [append_nil] at hread
  rw [hread]
  exact congrArg Except.ok (append_nil as)

theorem write_append {as bs : List α} {bytes bytes' : List UInt8}
    (hwrite : codec.write as = (.ok (), bytes)) (hwrite' : codec.write bs = (.ok (), bytes')) :
  codec.write (as ++ bs) = (.ok (), bytes ++ bytes')
  := by
  induction as generalizing bytes with
  | nil =>
    cases hwrite
    apply hwrite'
  | cons a as ih =>
    obtain ⟨text, rest, hprint, hrest, rfl⟩ := exists_write_cons hwrite
    rw [cons_append, write, hprint, ih hrest, append_assoc, cons_append]

/-! ### Lines that are no values -/

theorem read_error_of_parse_error {message : Text} (hline : lineFeed ∉ encode text)
    (hstrip : stripReturn (encode text) = encode text) (htrim : text.trim ≠ [])
    (hparse : codec.parse text.trim = .error message) (bytes : List UInt8) :
  codec.read (encode text ++ lineFeed :: bytes) = .error (.parse message)
  := by
  rw [read, lines_line hline, hstrip]
  simp only [readLines, decode_encode]
  rw [if_neg htrim, hparse]

theorem read_error_of_runOn {a b : α} {text text' : Text} (hprint : codec.print a = .ok text)
    (hprint' : codec.print b = .ok text') (bytes : List UInt8) :
  ∃ e, codec.read (encode text ++ (encode text' ++ lineFeed :: bytes)) = .error e
  := by
  have hne := codec.print_ne_nil hprint
  have hne' := codec.print_ne_nil hprint'
  obtain ⟨hhead, hlast⟩ := not_whitespace_print hprint hne
  obtain ⟨-, hlast'⟩ := not_whitespace_print hprint' hne'
  have htrim : (text ++ text').trim = text ++ text' := by
    rw [trim_append hne hhead hlast]
    congr 1
    have hend := trimEnd_append_of_not_whitespace (s := text'.dropLast) hlast' []
    rw [dropLast_append_getLast] at hend
    rw [hend]
    apply dropLast_append_getLast
  rcases hparse : codec.parse (text ++ text') with message | c
  · use .parse message
    rw [← append_assoc, ← encode_append]
    apply read_error_of_parse_error
    · rw [encode_append, mem_append, not_or]
      exact ⟨lineFeed_notMem_encode hprint, lineFeed_notMem_encode hprint'⟩
    · apply stripReturn_encode hprint'
    · rw [htrim]
      simp [hne]
    · rw [htrim, hparse]
  · have hspace := codec.whitespace_of_append (codec.parse_print hprint) hparse
    rw [hspace _ (getLast_mem hne')] at hlast'
    cases hlast'

theorem read_error_of_torn (hprint : codec.print a = .ok text) {torn rest : List UInt8}
    (htorn : torn ++ rest = encode text) (hne : torn ≠ []) (hrest : rest ≠ []) :
  ∃ e, codec.read torn = .error e
  := by
  have hline : lineFeed ∉ torn := by
    intro hmem
    apply lineFeed_notMem_encode hprint
    rw [← htorn]
    apply mem_append_left _ hmem
  rw [read, lines_last hline hne, readLines]
  rcases hdec : decode torn with _ | text'
  · exact ⟨_, rfl⟩
  obtain ⟨after, rfl⟩ := exists_append_of_decode_eq_some htorn hdec
  have henc := encode_of_decode_eq_some hdec
  have hafter : after ≠ [] := by
    rintro rfl
    apply hrest
    simpa [henc] using htorn
  have hne' : text' ≠ [] := by
    rintro rfl
    apply hne henc.symm
  obtain ⟨hhead, hlast⟩ := not_whitespace_print hprint (append_ne_nil_of_left_ne_nil hne' _)
  rw [head_append_of_ne_nil hne'] at hhead
  rw [getLast_append_of_ne_nil _ hafter] at hlast
  have htrim := trim_eq_trimEnd hne' hhead
  obtain ⟨space, hspace, -⟩ := exists_trimEnd_append text'
  have htrim_ne : text'.trim ≠ [] := by
    intro hnil
    rw [trim_eq_nil_iff] at hnil
    rw [hnil _ (head_mem hne')] at hhead
    cases hhead
  dsimp only
  rw [if_neg htrim_ne]
  rcases hparse : codec.parse text'.trim with message | b
  · exact ⟨_, rfl⟩
  · have hparse' := codec.parse_print hprint
    rw [hspace, ← htrim, append_assoc] at hparse'
    have hwhit := codec.whitespace_of_append hparse hparse'
    rw [hwhit _ (mem_append_right _ (getLast_mem hafter))] at hlast
    cases hlast

/-! ### Logs that were written in part -/

def EndsLine (bytes : List UInt8) : Prop := bytes = [] ∨ bytes.getLast? = some lineFeed

instance (bytes : List UInt8) : Decidable (EndsLine bytes) := inferInstanceAs (Decidable (_ ∨ _))

variable (codec) in
/-- Some whole lines were written, or also a part of the next one without its end. -/
inductive WrittenPart (as : List α) (written : List UInt8) : Prop
  | whole (n : Nat) : codec.write (as.take n) = (.ok (), written) → WrittenPart as written
  | torn (n : Nat) {a text bytes torn rest} :
      codec.write (as.take n) = (.ok (), bytes) → codec.print a = .ok text →
      as.take (n + 1) = as.take n ++ [a] → torn ≠ [] → torn ++ rest = Utf8.encode text →
      written = bytes ++ torn → WrittenPart as written

theorem WrittenPart.cons {written : List UInt8}
    (hpart : codec.WrittenPart as written) (hprint : codec.print a = .ok text) :
  codec.WrittenPart (a :: as) (encode text ++ lineFeed :: written)
  := by
  cases hpart with
  | whole n hwrite =>
    apply WrittenPart.whole (n + 1)
    rw [take_succ_cons, write, hprint, hwrite]
  | torn n hwrite hprint' htake hne htorn heq =>
    apply WrittenPart.torn (n + 1) _ hprint' _ hne htorn
    · rw [heq, ← cons_append, ← append_assoc]
    · rw [take_succ_cons, write, hprint, hwrite]
    · rw [take_succ_cons, htake]
      rfl

theorem writtenPart_of_append {bytes written unwritten : List UInt8}
    (hwrite : codec.write as = (.ok (), bytes)) (hbytes : written ++ unwritten = bytes) :
  codec.WrittenPart as written
  := by
  induction as generalizing bytes written with
  | nil =>
    cases hwrite
    obtain ⟨rfl, -⟩ := append_eq_nil_iff.mp hbytes
    apply WrittenPart.whole 0
    rfl
  | cons a as ih =>
    obtain ⟨text, bytes', hprint, hwrite', rfl⟩ := exists_write_cons hwrite
    obtain ⟨rest, hrest, -⟩ | ⟨more, rfl, hmore⟩ := append_eq_append_iff.mp hbytes
    · by_cases hne : written = []
      · subst hne
        apply WrittenPart.whole 0
        rfl
      · apply WrittenPart.torn 0 _ hprint _ hne hrest.symm
        · rw [nil_append]
        · rfl
        · rfl
    · rcases more with _ | ⟨b, more⟩
      · rw [append_nil]
        apply WrittenPart.torn 0 _ hprint _ _ (append_nil _)
        · rw [nil_append]
        · rfl
        · rfl
        · apply encode_ne_nil (codec.print_ne_nil hprint)
      · rw [cons_append, cons.injEq] at hmore
        obtain ⟨rfl, hmore⟩ := hmore
        apply WrittenPart.cons (ih hwrite' hmore.symm) hprint

theorem endsLine_write (hwrite : codec.write as = (.ok (), bytes)) :
  EndsLine bytes
  := by
  induction as generalizing bytes with
  | nil =>
    cases hwrite
    apply Or.inl rfl
  | cons a as ih =>
    obtain ⟨text, rest, hprint, hrest, rfl⟩ := exists_write_cons hwrite
    right
    obtain rfl | hlast := ih hrest
    · simp
    · simp [getLast?_append, getLast?_cons, hlast]

variable (codec) in
/-- A log is read as its values and some of those that were to be written, also after further values
are appended. -/
def Recovers (before as : List α) (bytes : List UInt8) : Prop :=
  ∃ n, codec.read bytes = .ok (before ++ as.take n)
    ∧ ∀ later added, codec.write later = (.ok (), added) →
      codec.read (bytes ++ added) = .ok (before ++ as.take n ++ later)

/-- A log recovers from a broken write exactly when what was written ends with a whole line. -/
theorem recovers_iff_endsLine {before as : List α} {old bytes written unwritten : List UInt8}
    (hbef : codec.write before = (.ok (), old)) (hwrite : codec.write as = (.ok (), bytes))
    (hbytes : written ++ unwritten = bytes) :
  codec.Recovers before as (old ++ written) ↔ EndsLine written
  := by
  have hpart := writtenPart_of_append hwrite hbytes
  cases hpart with
  | whole n hwhole =>
    have hlog := write_append hbef hwhole
    constructor
    · intro _
      apply endsLine_write hwhole
    · intro _
      use n, read_write hlog
      intro later added hlater
      apply read_write (write_append hlog hlater)
  | @torn n a text whole torn rest hwhole hprint htake hne htorn heq =>
    have hlog := write_append hbef hwhole
    have hread (more : List UInt8) : codec.read (old ++ written ++ more)
        = (codec.read (torn ++ more)).map ((before ++ as.take n) ++ ·) := by
      rw [heq, ← append_assoc, append_assoc (old ++ whole), read_write_append hlog]
    constructor
    · rintro ⟨n', hload, hlater⟩
      exfalso
      by_cases hrest : rest = []
      · rw [hrest, append_nil] at htorn
        have hagain : codec.write [a] = (.ok (), encode text ++ [lineFeed]) := by
          simp only [write, hprint]
        obtain ⟨e, herror⟩ := read_error_of_runOn hprint hprint []
        have hread' := hlater [a] _ hagain
        rw [hread, htorn, herror] at hread'
        cases hread'
      · obtain ⟨e, herror⟩ := read_error_of_torn hprint htorn hne hrest
        have hread' := hread []
        rw [append_nil, append_nil, hload, herror] at hread'
        cases hread'
    · intro hends
      exfalso
      apply lineFeed_notMem_encode hprint
      rw [← htorn]
      apply mem_append_left
      apply mem_of_getLast?
      obtain hnil | hlast := hends
      · rw [hnil] at heq
        cases hne (append_eq_nil_iff.mp heq.symm).2
      · rwa [heq, getLast?_append_of_ne_nil _ hne] at hlast

end LineCodec
