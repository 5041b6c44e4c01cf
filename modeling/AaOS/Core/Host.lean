import AaOS.Lib.Text

/-!
# Hosts of URLs

`extract_host` of `aaos-core/src/capability.rs`.  Lowercasing is the argument `toLowercase`,
which is assumed to act on a leading ASCII text character by character.  The host of a URL is
the lowercased host it is written with, whatever the path, the query and the fragment.
-/

open List Text Option

/-- A lowercasing of texts that agrees with the one of ASCII on every leading ASCII
text. -/
structure Lowercase where
  run : Text → Text
  ascii : ∀ s t, (∀ c ∈ s, c.toNat < 128) →
    ∃ u, run (s ++ t) = s.map Char.toLower ++ u ∧ (t = [] → u = [])

def Lowercase.onlyAscii : Lowercase where
  run s := s.map Char.toLower
  ascii s t _ := ⟨t.map Char.toLower, by simp, by simp +contextual⟩

def endsAuthority (c : Char) : Bool := c = '/' || c = '?' || c = '#'

def extractHost (toLowercase : Text → Text) (input : Text) : Text :=
  let lowered := toLowercase (Text.trim input)
  match Text.splitFirst "://" lowered with
  | none => lowered
  | some (_, afterScheme) =>
    let authority := afterScheme.takeWhile (fun c => !endsAuthority c)
    let hostWithPort := Text.afterLast '@' authority
    if hostWithPort.head? = some '[' then
      if ']' ∈ hostWithPort then hostWithPort.takeWhile (· ≠ ']') ++ [']'] else hostWithPort
    else hostWithPort.takeWhile (· ≠ ':')

/-! ### URLs -/

def charsFrom (c : Char) (n : Nat) : Text :=
  (List.range n).map (fun i => Char.ofNat (c.toNat + i))

def letters : Text := charsFrom 'a' 26 ++ charsFrom 'A' 26

/-- The digits of ASCII. -/
def digits : Text := charsFrom '0' 10

/-- The characters of a scheme, which include those of a host. -/
def schemeChars : Text := letters ++ digits ++ ['+', '-', '.']

def hostChars : Text := letters ++ digits ++ ['.', '-']

/-- A URL with a host name: a scheme, a host, a port, and the text of the path, the query and the
fragment. -/
structure Url where
  scheme : Text
  host : Text
  port : Option Text
  suffix : Text
  scheme_ne : scheme ≠ []
  scheme_chars : scheme.all (· ∈ schemeChars) = true
  host_ne : host ≠ []
  host_chars : host.all (· ∈ hostChars) = true
  port_digits : port.all (fun p => p.all (· ∈ digits)) = true
  suffix_head : suffix.head?.all endsAuthority = true

namespace Url

def authority (url : Url) : Text := url.host ++ url.port.elim [] (':' :: ·)

/-- The text of a URL up to its path, query and fragment. -/
def origin (url : Url) : Text := url.scheme ++ ':' :: ("//" ++ url.authority)

/-- The text of a URL. -/
def text (url : Url) : Text := url.origin ++ url.suffix

example :
  Url.text ⟨"https", "Example.COM", some "8080", "/a,b", by decide,
    by decide, by decide, by decide, by decide, by decide⟩ = "https://Example.COM:8080/a,b"
  := by
  decide

/-! ### Characters of URLs -/

structure IsNameChar (c : Char) : Prop where
  ascii : c.toNat < 128
  not_space : Text.isWhitespace c = false
  lower : c.toLower ∈ schemeChars
  not_separator : c ∉ [':', ',', '@', '[', '*']
  not_end : endsAuthority c = false

variable {c : Char}

theorem isNameChar (h : c ∈ schemeChars) :
  IsNameChar c
  := by
  have hall : schemeChars.all (fun c => c.toNat < 128 ∧ isWhitespace c = false
      ∧ c.toLower ∈ schemeChars ∧ c ∉ [':', ',', '@', '[', '*'] ∧ endsAuthority c = false)
      = true := by
    decide +kernel
  obtain ⟨hascii, hspace, hlower, hsep, hend⟩ := of_decide_eq_true (all_eq_true.mp hall c h)
  exact ⟨hascii, hspace, hlower, hsep, hend⟩

variable {url : Url}

theorem mem_schemeChars_of_host (h : c ∈ url.host) :
  c ∈ schemeChars
  := by
  have hall : hostChars.all (· ∈ schemeChars) = true := by
    decide +kernel
  have hc := of_decide_eq_true (all_eq_true.mp url.host_chars c h)
  exact of_decide_eq_true (all_eq_true.mp hall c hc)

theorem mem_schemeChars_of_port {p : Text} (hp : url.port = some p) (h : c ∈ p) :
  c ∈ schemeChars ∧ c.toLower = c
  := by
  have hall : digits.all (fun c => c ∈ schemeChars ∧ c.toLower = c) = true := by
    decide +kernel
  have hdigit := url.port_digits
  rw [hp, all_some] at hdigit
  have hc := of_decide_eq_true (all_eq_true.mp hdigit c h)
  exact of_decide_eq_true (all_eq_true.mp hall c hc)

theorem mem_origin (h : c ∈ url.origin) :
  c ∈ schemeChars ∨ c = ':' ∨ c = '/'
  := by
  simp only [origin, authority, mem_append, mem_cons] at h
  obtain h | h | h | h | h := h
  · exact .inl (of_decide_eq_true (all_eq_true.mp url.scheme_chars c h))
  · exact .inr (.inl h)
  · right
    right
    simpa using h
  · exact .inl (mem_schemeChars_of_host h)
  · cases hport : url.port with
    | none => simp [hport] at h
    | some p =>
      rw [hport, elim_some, mem_cons] at h
      obtain h | h := h
      · exact .inr (.inl h)
      · exact .inl (mem_schemeChars_of_port hport h).1

theorem origin_spec (h : c ∈ url.origin) :
  c.toNat < 128 ∧ isWhitespace c = false ∧ c ≠ ','
  := by
  obtain h | rfl | rfl := mem_origin h
  · have hname := isNameChar h
    use hname.ascii, hname.not_space
    rintro rfl
    exact hname.not_separator (by decide)
  · decide
  · decide

theorem origin_ne (url : Url) :
  url.origin ≠ []
  := by
  simp [origin]

/-! ### The host of a URL -/

/-- A text that may follow the origin of a URL: it is empty, or its first character ends
the authority. -/
def EndsAuthority (s : Text) : Prop := ∀ c ∈ s.head?, endsAuthority c = true

variable {s : Text}

theorem EndsAuthority.trimEnd (h : EndsAuthority s) :
  EndsAuthority (trimEnd s)
  := by
  cases s with
  | nil => exact h
  | cons c s =>
    have hc : endsAuthority c = true := h c rfl
    have hspace : isWhitespace c = false := by
      simp only [endsAuthority, Bool.or_eq_true, decide_eq_true_eq] at hc
      obtain (rfl | rfl) | rfl := hc <;> decide
    have htrim := trimEnd_append_of_not_whitespace hspace s (s := [])
    rw [nil_append, nil_append] at htrim
    rw [htrim]
    simpa [EndsAuthority] using hc

theorem lowercase_origin (lowercase : Lowercase) (url : Url) (h : EndsAuthority s) :
  ∃ t, lowercase.run (url.origin ++ s) = url.origin.map Char.toLower ++ t ∧ EndsAuthority t
  := by
  have hascii : ∀ c ∈ url.origin, c.toNat < 128 := fun c hc => (origin_spec hc).1
  cases s with
  | nil =>
    obtain ⟨t, ht, hnil⟩ := lowercase.ascii url.origin [] hascii
    use t, ht
    simp [EndsAuthority, hnil rfl]
  | cons c s =>
    have hc : endsAuthority c = true := h c rfl
    have hlower : c.toNat < 128 ∧ c.toLower = c := by
      simp only [endsAuthority, Bool.or_eq_true, decide_eq_true_eq] at hc
      obtain (rfl | rfl) | rfl := hc <;> decide
    obtain ⟨t, ht, -⟩ := lowercase.ascii (url.origin ++ [c]) s (by
      intro d hd
      obtain hd | rfl := by simpa using hd
      · exact hascii d hd
      · exact hlower.1)
    use c :: t
    constructor
    · simpa [hlower.2] using ht
    · simpa [EndsAuthority] using hc

theorem authority_lower (url : Url) :
  url.authority.map Char.toLower = url.host.map Char.toLower ++ url.port.elim [] (':' :: ·)
  := by
  cases hport : url.port with
  | none => simp [authority, hport]
  | some p =>
    have hp : p.map Char.toLower = p := by
      nth_rewrite 2 [← map_id p]
      apply map_congr_left
      intro c hc
      exact (mem_schemeChars_of_port hport hc).2
    have hcolon : Char.toLower ':' = ':' := by decide
    simp [authority, hport, hp, hcolon]

theorem host_lower_spec (h : c ∈ url.host.map Char.toLower) :
  c ∈ schemeChars
  := by
  obtain ⟨d, hd, rfl⟩ := mem_map.mp h
  exact (isNameChar (mem_schemeChars_of_host hd)).lower

theorem mem_authority_lower (h : c ∈ url.authority.map Char.toLower) :
  c ∈ schemeChars ∨ c = ':'
  := by
  rw [authority_lower, mem_append] at h
  obtain h | h := h
  · exact .inl (host_lower_spec h)
  · cases hport : url.port with
    | none => simp [hport] at h
    | some p =>
      rw [hport, elim_some, mem_cons] at h
      obtain h | h := h
      · exact .inr h
      · exact .inl (mem_schemeChars_of_port hport h).1

theorem host_of_authority (url : Url) :
  (url.authority.map Char.toLower).head? ≠ some '['
    ∧ (url.authority.map Char.toLower).takeWhile (· ≠ ':') = url.host.map Char.toLower
  := by
  have hhost : ∀ c ∈ url.host.map Char.toLower, decide (c ≠ ':') = true := by
    intro c hc
    rw [decide_eq_true_eq]
    rintro rfl
    exact (isNameChar (host_lower_spec hc)).not_separator (by decide)
  constructor
  · intro hhead
    have hmem := mem_of_mem_head? hhead
    obtain hc | hc := mem_authority_lower hmem
    · exact (isNameChar hc).not_separator (by decide)
    · exact absurd hc (by decide)
  · rw [authority_lower, takeWhile_append_of_pos hhost]
    cases url.port with
    | none => simp
    | some p => simp

theorem endsAuthority_suffix (url : Url) :
  EndsAuthority url.suffix
  := by
  intro c hc
  have hhead := url.suffix_head
  rwa [mem_def.mp hc, all_some] at hhead

theorem extractHost_origin (lowercase : Lowercase) (url : Url) (h : EndsAuthority s) :
  extractHost lowercase.run (url.origin ++ s) = url.host.map Char.toLower
  := by
  have htrim : trim (url.origin ++ s) = url.origin ++ trimEnd s :=
    trim_append url.origin_ne (origin_spec (head_mem _)).2.1
      (origin_spec (getLast_mem _)).2.1 s
  obtain ⟨t, ht, hend⟩ := lowercase_origin lowercase url h.trimEnd
  have hsch : ':' ∉ url.scheme.map Char.toLower := by
    intro hmem
    obtain ⟨c, hc, hcolon⟩ := mem_map.mp hmem
    have hname := of_decide_eq_true (all_eq_true.mp url.scheme_chars c hc)
    have hlower := (isNameChar hname).lower
    rw [hcolon] at hlower
    exact (isNameChar hlower).not_separator (by decide)
  have hfirst : splitFirst "://" (url.origin.map Char.toLower ++ t)
      = some (url.scheme.map Char.toLower, url.authority.map Char.toLower ++ t) := by
    rw [← splitFirst_append hsch "//"]
    simp [origin]
  have haut : (url.authority.map Char.toLower ++ t).takeWhile (fun c => !endsAuthority c)
      = url.authority.map Char.toLower := by
    rw [takeWhile_append_of_pos]
    · cases t with
      | nil => simp
      | cons c t => simp [hend c rfl]
    · intro c hc
      obtain hc | rfl := mem_authority_lower hc
      · simp [(isNameChar hc).not_end]
      · decide
  have hat : '@' ∉ url.authority.map Char.toLower := by
    intro hmem
    obtain hc | hc := mem_authority_lower hmem
    · exact (isNameChar hc).not_separator (by decide)
    · exact absurd hc (by decide)
  obtain ⟨hbrac, hhost⟩ := host_of_authority url
  simp only [extractHost, htrim, ht, hfirst, haut, afterLast_of_not_mem hat, if_neg hbrac, hhost]

end Url
