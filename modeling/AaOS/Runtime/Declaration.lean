import AaOS.Core.Host
import AaOS.Core.Manifest

/-!
# Capability declarations

`parse_capability_declaration` of `aaos-runtime/src/registry.rs` reads the capabilities of a
manifest.  A declaration `network:` is split at commas before its URLs are read, so a single URL
grants its host and nothing else exactly when nothing but commas and white space follows its first
comma.
-/

open List CapabilityToken Text

section Parse

variable (toLowercase : Text → Text)

/-- The texts between the commas of a list, trimmed, without the empty ones. -/
def listItems (s : Text) : List Text :=
  ((s.splitOn ',').map Text.trim).filter (fun item => item ≠ [])

def parseSimpleDeclaration (declaration : Text) : Capability :=
  let s := Text.trim declaration
  if s = "web_search" then .webSearch
  else if let some path := Text.stripPrefix "file_read:" s then .fileRead (Text.trim path)
  else if let some path := Text.stripPrefix "file_write:" s then .fileWrite (Text.trim path)
  else if let some tool := Text.stripPrefix "tool:" s then .toolInvoke (Text.trim tool)
  else if let some agents := Text.stripPrefix "spawn_child:" s then
    .spawnChild (listItems (Text.trimMatches (fun c => c = '[' || c = ']') (Text.trim agents)))
  else if let some ws := Text.stripPrefix "cargo_run:" s then .cargoRun (Text.trim ws)
  else if let some ws := Text.stripPrefix "git_commit:" s then .gitCommit (Text.trim ws)
  else if let some rest := Text.stripPrefix "network:" s then
    .networkAccess ((listItems rest).map (extractHost toLowercase))
  else .custom s .null

def parseCapabilityDeclaration : CapabilityDeclaration → Option Capability
  | .simple s => some (parseSimpleDeclaration toLowercase s)
  | .withParams params =>
    ((params.lookup "name".toList).bind Json.asStr).map fun name =>
      .custom name (.obj (params.filter (fun field => field.1 ≠ "name".toList)))

end Parse

/-! ### Declarations with a single URL -/

def networkDeclaration (url : Url) : CapabilityDeclaration :=
  .simple ("network: " ++ url.text)

/-- The declaration grants a single host, and tokens issued for it permit that host only. -/
def OpensOnly (toLowercase : Text → Text) (declaration : CapabilityDeclaration) (host : Text) :
    Prop :=
  ∃ capability, parseCapabilityDeclaration toLowercase declaration = some capability
    ∧ capability = .networkAccess [host]
    ∧ ∀ canonicalize id issued agentId constraints now h,
      (CapabilityToken.issue id issued agentId capability constraints).permits canonicalize now
        (.networkAccess [h]) = true → h = host

section Network

variable (lowercase : Lowercase) (url : Url)

theorem parseSimpleDeclaration_network (toLowercase : Text → Text) {declaration rest : Text}
    (h : trim declaration = "network:" ++ rest) :
  parseSimpleDeclaration toLowercase declaration
    = .networkAccess ((listItems rest).map (extractHost toLowercase))
  := by
  have hhead : "network:" ++ rest ≠ "web_search" := by
    intro heq
    exact absurd (congrArg head? heq) (by simp)
  rw [parseSimpleDeclaration, h, if_neg hhead]
  rfl

theorem parse_networkDeclaration :
  parseCapabilityDeclaration lowercase.run (networkDeclaration url)
    = some (.networkAccess
        ((listItems (' ' :: (url.origin ++ trimEnd url.suffix))).map
          (extractHost lowercase.run)))
  := by
  have hne : "network: ".toList ++ url.origin ≠ [] := by
    simp
  have htrim := trim_append hne (by simp; decide)
    (by rw [getLast_append_of_ne_nil _ url.origin_ne]
        exact (Url.origin_spec (getLast_mem _)).2.1) url.suffix
  rw [append_assoc, ← Url.text] at htrim
  rw [networkDeclaration, parseCapabilityDeclaration, parseSimpleDeclaration_network]
  rw [htrim]
  simp

theorem listItems_origin {s : Text} (h : Url.EndsAuthority s) :
  (listItems (' ' :: (url.origin ++ s))).map (extractHost lowercase.run)
    = url.host.map Char.toLower
      :: (((s.splitOn ',').tail.map trim).filter (fun item => item ≠ [])).map
        (extractHost lowercase.run)
  := by
  have hcomma : ',' ∉ ' ' :: url.origin := by
    rw [mem_cons, not_or]
    exact ⟨by decide, fun hmem => (Url.origin_spec hmem).2.2 rfl⟩
  obtain ⟨p, ps, hps⟩ := exists_cons_of_ne_nil (splitOn_ne_nil ',' s)
  have hp : Url.EndsAuthority p := by
    cases s with
    | nil =>
      obtain ⟨rfl, -⟩ : p = [] ∧ ps = [] := by simpa using hps.symm
      exact h
    | cons c s =>
      have hc : c ≠ ',' := by
        rintro rfl
        exact absurd (h ',' rfl) (by decide)
      rw [splitOn_cons_eq_if_modifyHead] at hps
      obtain ⟨q, qs, hqs⟩ := exists_cons_of_ne_nil (splitOn_ne_nil ',' s)
      obtain ⟨rfl, -⟩ : c :: q = p ∧ qs = ps := by simpa [hc, hqs] using hps
      exact h
  have htrim : trim (' ' :: (url.origin ++ p)) = url.origin ++ trimEnd p :=
    trim_append url.origin_ne (Url.origin_spec (head_mem _)).2.1
      (Url.origin_spec (getLast_mem _)).2.1 p
  have hsplit : (' ' :: (url.origin ++ s)).splitOn ',' = (' ' :: (url.origin ++ p)) :: ps := by
    rw [← cons_append, splitOn_append hcomma, hps]
    rfl
  rw [listItems, hsplit, map_cons, htrim, filter_cons_of_pos (by simp [url.origin_ne]),
    map_cons, Url.extractHost_origin lowercase url hp.trimEnd, hps, tail_cons]

theorem filter_items_eq_nil_iff (s : Text) :
  (((s.splitOn ',').tail.map trim).filter (fun item => item ≠ [])) = []
    ↔ ∀ c ∈ s.dropWhile (· ≠ ','), c = ',' ∨ isWhitespace c = true
  := by
  rw [← forall_mem_tail_splitOn_iff, filter_eq_nil_iff, List.forall_mem_map]
  simp [trim_eq_nil_iff]

theorem forall_mem_dropWhile_trimEnd (s : Text) :
  (∀ c ∈ (trimEnd s).dropWhile (· ≠ ','), c = ',' ∨ isWhitespace c = true)
    ↔ ∀ c ∈ s.dropWhile (· ≠ ','), c = ',' ∨ isWhitespace c = true
  := by
  obtain ⟨w, hs, hw⟩ := exists_trimEnd_append s
  nth_rewrite 2 [hs]
  rw [dropWhile_append]
  split_ifs with hempty
  · rw [List.isEmpty_iff] at hempty
    rw [hempty]
    simp only [not_mem_nil, false_implies, implies_true, true_iff]
    intro c hc
    exact .inr (hw c ((dropWhile_sublist _).subset hc))
  · simp only [List.forall_mem_append]
    constructor
    · intro h
      use h
      intro c hc
      exact .inr (hw c hc)
    · exact And.left

theorem host_of_permits {canonicalize : Text → Option Text} {token : CapabilityToken}
    {now : DateTime} {host h : Text} (htoken : token.capability = .networkAccess [host])
    (hstar : '*' ∉ host) (hperm : token.permits canonicalize now (.networkAccess [h]) = true) :
  h = host
  := by
  have hhost : host ≠ ['*'] := by
    rintro rfl
    exact hstar (by simp)
  unfold permits at hperm
  split_ifs at hperm
  simpa [capabilityMatches, htoken, hhost] using hperm

/-- The declaration with a URL opens its host only exactly when nothing but commas and white space
follows its first comma. -/
theorem opensOnly_iff :
  OpensOnly lowercase.run (networkDeclaration url) (url.host.map Char.toLower)
    ↔ ∀ c ∈ url.suffix.dropWhile (· ≠ ','), c = ',' ∨ Text.isWhitespace c = true
  := by
  have hparse := parse_networkDeclaration lowercase url
  rw [listItems_origin lowercase url url.endsAuthority_suffix.trimEnd] at hparse
  rw [← forall_mem_dropWhile_trimEnd, ← filter_items_eq_nil_iff]
  constructor
  · rintro ⟨capability, hcap, rfl, -⟩
    rw [hparse] at hcap
    simpa using hcap
  · intro hitems
    rw [hitems, List.map_nil] at hparse
    refine ⟨_, hparse, rfl, ?_⟩
    intro canonicalize id issued agentId constraints now h hperm
    apply host_of_permits rfl _ hperm
    intro hstar
    exact (Url.isNameChar (Url.host_lower_spec hstar)).not_separator (by decide)

end Network

/-- A comma in the path of a URL opens a second host. -/
theorem not_opensOnly_comma :
  ¬ OpensOnly Lowercase.onlyAscii.run
      (networkDeclaration ⟨"https".toList, "example.com".toList, none, "/a,evil.com".toList,
        by decide, by decide, by decide, by decide, by decide, by decide⟩)
      "example.com".toList
  := by
  rintro ⟨capability, hparse, rfl, -⟩
  have hhosts : parseCapabilityDeclaration Lowercase.onlyAscii.run
      (networkDeclaration ⟨"https", "example.com", none, "/a,evil.com",
        by decide, by decide, by decide, by decide, by decide, by decide⟩)
      = some (.networkAccess ["example.com", "evil.com"]) := by
    rfl
  rw [hhosts] at hparse
  simp at hparse
