import AaOS.Tools.Editing
import AaOS.Tools.WebFetch

/-!
# Reading a file page by page

`invoke` of `aaos-tools/src/file_read.rs` returns some lines of a file, with their numbers, and
whether there are more.  A client that asks for the lines after the ones it was given, until there
are no more, has the whole file.
-/

open List Text

open Eff Stable Returns

def maxReadBytes : Nat := 1048576

def defaultReadLimit : Nat := 2000

section Tool

variable (kernel : Kernel) (ctx : InvocationContext) (now : DateTime)

/-- Open the file, check that it may be read, and read it; the size and the text are returned. -/
def readAccepted (path : Text) : ToolM (Nat × Text) := do
  let (fd, canonical) ← safeOpenForCapability kernel path .read
  refuseIf (!ctx.permitsCanonicalFile now .read canonical)
    (.capabilityDenied ctx.agentId (.fileRead canonical)
      ("file_read not permitted for path: " ++ canonical))
  callOrFail (kernel.metadata fd) "metadata: "
  let isFile ← query fun files => (files.inode fd.ino).any (fun inode => inode matches .regular _)
  refuseIf (!isFile) (.ipc (canonical ++ " is not a regular file"))
  let len ← query fun files => files.size fd.ino
  refuseIf (len > maxReadBytes)
    (.ipc ("file too large: " ++ Nat.toDigits 10 len ++ " bytes (max "
      ++ Nat.toDigits 10 maxReadBytes ++ ")"))
  let raw ← readToString kernel fd
  pure (len, raw)

/-- A line with its number in a field of six characters. -/
def numberedLine (line : Text × Nat) : Text :=
  List.leftpad 6 ' ' (Nat.toDigits 10 (line.2 + 1)) ++ '\t' :: Text.line line.1

def readPage (len : Nat) (raw : Text) (offset limit : Nat) : Json :=
  let totalLines := (Text.lines raw).length
  let startIdx := min (offset - 1) totalLines
  let endIdx := min (startIdx + limit) totalLines
  let returnedLines := endIdx - startIdx
  let out := (((Text.lines raw).zipIdx.drop startIdx).take returnedLines).flatMap numberedLine
  .obj [("content", .str out), ("offset", jsonNat offset),
    ("returned_lines", jsonNat returnedLines), ("size_bytes", jsonNat len),
    ("total_lines", jsonNat totalLines), ("truncated", .bool (endIdx < totalLines))]

def readOffset (input : Json) : Nat :=
  (((input.get "offset").bind Json.asU64).map fun n => max n.toNat 1).getD 1

def readLimit (input : Json) : Nat :=
  (((input.get "limit").bind Json.asU64).map UInt64.toNat).getD defaultReadLimit

/-- Read a page of the lines of a file. -/
def fileRead (input : Json) : ToolM Json := do
  let path ← textParameter input "path"
  let (len, raw) ← readAccepted kernel ctx now path
  pure (readPage len raw (readOffset input) (readLimit input))

/-! ### The client -/

def readRequest (path : Text) (offset limit : Nat) : Json :=
  .obj [("limit", jsonNat limit), ("offset", jsonNat offset), ("path", .str path)]

/-- The pages from an offset on; there is no result when a call fails or the calls are used up. -/
def readPages (path : Text) (limit : Nat) : Nat → Nat → Files → Option Text
  | 0, _, _ => none
  | calls + 1, offset, files => do
    let (result, files) := exec (fileRead kernel ctx now (readRequest path offset limit)) files
    let page ← result.toOption
    let content ← (page.get "content").bind Json.asStr
    let returnedLines ← (page.get "returned_lines").bind Json.asU64
    let truncated ← (page.get "truncated").bind Json.asBool
    if truncated then
      (readPages path limit calls (offset + returnedLines.toNat) files).map (content ++ ·)
    else some content

end Tool

def numberedListing (raw : Text) : Text := (Text.lines raw).zipIdx.flatMap numberedLine

variable {kernel : Kernel} {ctx : InvocationContext} {now : DateTime} {files : Files}
  {path raw : Text} {len offset limit : Nat}

theorem asU64_jsonNat (n : Nat) :
  (jsonNat n).asU64 = if n < 2 ^ 64 then some (UInt64.ofNat n) else none
  := by
  have hvalue : (Nat.toDigits 10 n).foldl (fun n c => 10 * n + (c.toNat - '0'.toNat)) 0 = n :=
    Nat.ofDigitChars_ten_toDigits
  have hdigit : (Nat.toDigits 10 n).all Char.isDigit = true := by
    rw [all_eq_true]
    intro c hc
    apply Nat.isDigit_of_mem_toDigits (by decide) (by decide) hc
  unfold jsonNat Json.asU64
  dsimp only
  simp only [hvalue, hdigit, ne_eq, Nat.toDigits_ne_nil, not_false_eq_true, true_and]

theorem toNat_ofNat_of_lt {n : Nat} (hn : n < 2 ^ 64) :
  (UInt64.ofNat n).toNat = n
  := Nat.mod_eq_of_lt hn

theorem readOffset_readRequest (hpos : 0 < offset) (hoff : offset < 2 ^ 64) :
  readOffset (readRequest path offset limit) = offset
  := by
  have hget : (readRequest path offset limit).get "offset" = some (jsonNat offset) := rfl
  rw [readOffset, hget, Option.bind_some, asU64_jsonNat, if_pos hoff, Option.map_some,
    Option.getD_some, toNat_ofNat_of_lt hoff, max_eq_left hpos]

/-- A limit that does not fit into 64 bits is the default. -/
theorem readLimit_readRequest_pos (hpos : 0 < limit) :
  0 < readLimit (readRequest path offset limit)
  := by
  change 0 < ((jsonNat limit).asU64.map UInt64.toNat).getD defaultReadLimit
  rw [asU64_jsonNat]
  split_ifs with hlimit
  · rw [Option.map_some, Option.getD_some, toNat_ofNat_of_lt hlimit]
    apply hpos
  · decide

theorem length_splitOn_le (x : Char) (s : Text) :
  (s.splitOn x).length ≤ s.length + 1
  := by
  induction s with
  | nil => apply Nat.le_refl
  | cons c s ih =>
    rw [splitOn_cons_eq_if_modifyHead]
    split_ifs
    · apply Nat.succ_le_succ ih
    · rw [length_modifyHead]
      apply ih.trans (Nat.le_succ _)

theorem length_le_length_asBytes (s : Text) :
  s.length ≤ (asBytes s).length
  := by
  induction s with
  | nil => apply Nat.le_refl
  | cons c s ih =>
    have hpos : 0 < (String.utf8EncodeChar c).length := by
      rw [String.length_utf8EncodeChar]
      apply Char.utf8Size_pos
    rw [asBytes, flatMap_cons, length_append, length_cons]
    change s.length + 1 ≤ _ + (asBytes s).length
    omega

theorem length_lines_le (raw : Text) :
  (lines raw).length ≤ (asBytes raw).length + 1
  := by
  have hsplit := length_splitOn_le '\n' raw
  have hbytes := length_le_length_asBytes raw
  have hne := length_pos_iff.mpr (splitOn_ne_nil '\n' raw)
  have hlast : ((raw.splitOn '\n').getLast?.toList.filter (· ≠ [])).length ≤ 1 := by
    apply (length_filter_le _ _).trans
    cases (raw.splitOn '\n').getLast? <;> simp
  rw [lines, length_append, length_map, length_dropLast]
  omega

/-! ### A call -/

section Read

theorem stable_openCall {answer : Except Errno OwnedFd} {flags : OFlag}
    (hcreate : flags.creat = false) (htrunc : flags.trunc = false) :
  Stable (· = ·) (openCall flags answer)
  := by
  apply Stable.ofStep
  intro files
  cases answer with
  | error e => rfl
  | ok fd =>
    simp only [Files.opened, hcreate, htrunc]
    split <;> rfl

/-- Reading changes no file. -/
theorem stable_readAccepted :
  Stable (· = ·) (readAccepted kernel ctx now path)
  := by
  have hfal : Stable (· = ·) (openFallback kernel path AccessMode.read.flags) := by
    refine bind (stable_openCall rfl rfl) fun opened => ?_
    cases opened with
    | ok fd => apply Stable.pure
    | error e => apply Stable.throw
  have hopen : Stable (· = ·) (safeOpenForCapability kernel path .read) := by
    refine bind (bind (stable_openCall rfl rfl) fun opened => ?_) fun fd => ?_
    · split
      · apply Stable.pure
      · apply hfal
      · apply hfal
      · apply Stable.throw
    · split
      · apply Stable.pure
      · apply Stable.throw
  refine bind hopen fun opened => ?_
  refine bind (refuseIf _ _) fun _ => ?_
  refine bind (check _) fun _ => ?_
  refine bind (query _) fun isFile => ?_
  refine bind (refuseIf _ _) fun _ => ?_
  refine bind (query _) fun len => ?_
  refine bind (refuseIf _ _) fun _ => ?_
  refine bind (bind (query _) fun bytes => ?_) fun raw => pure _
  split
  · apply Stable.pure
  · apply Stable.throw

theorem returns_readAccepted :
  Returns (fun accepted => accepted.1 ≤ maxReadBytes) (readAccepted kernel ctx now path)
  := by
  refine after fun opened => ?_
  refine after fun _ => ?_
  refine after fun _ => ?_
  refine after fun isFile => ?_
  refine after fun _ => ?_
  refine after fun len => ?_
  refine bind (refuseIf _ _) fun _ hsize => ?_
  refine after fun raw => pure ?_
  simpa using hsize

theorem exec_fileRead (hread : (exec (readAccepted kernel ctx now path) files).1 = .ok (len, raw))
    (hpos : 0 < offset) (hoff : offset < 2 ^ 64) :
  exec (fileRead kernel ctx now (readRequest path offset limit)) files
    = (.ok (readPage len raw offset (readLimit (readRequest path 1 limit))), files)
  := by
  have hpath : exec (textParameter (readRequest path offset limit) "path") files
      = (.ok path, files) := rfl
  have hexec : exec (readAccepted kernel ctx now path) files = (.ok (len, raw), files) :=
    Prod.ext hread (stable_readAccepted files).symm
  rw [fileRead, exec_bind_of_ok hpath, exec_bind_of_ok hexec, exec_pure,
    readOffset_readRequest hpos hoff]
  rfl

end Read

/-! ### All pages -/

/-- The pages from the line after the first `k` lines on. -/
theorem readPages_eq (hread : (exec (readAccepted kernel ctx now path) files).1 = .ok (len, raw))
    (hlines : (lines raw).length + 1 < 2 ^ 64) (hpos : 0 < limit) {k calls : Nat}
    (hk : k ≤ (lines raw).length) (hcalls : (lines raw).length - k < calls) :
  readPages kernel ctx now path limit calls (k + 1) files
    = some (((lines raw).zipIdx.drop k).flatMap numberedLine)
  := by
  have hread' : ∀ offset, 0 < offset → offset < 2 ^ 64 →
      exec (fileRead kernel ctx now (readRequest path offset limit)) files
        = (.ok (readPage len raw offset (readLimit (readRequest path 1 limit))), files) :=
    fun offset => exec_fileRead hread
  have hsome : 0 < readLimit (readRequest path 1 limit) := readLimit_readRequest_pos hpos
  generalize readLimit (readRequest path 1 limit) = n at hread' hsome
  induction calls generalizing k with
  | zero => cases hcalls
  | succ calls ih =>
    have hstart : min (k + 1 - 1) (lines raw).length = k := min_eq_left hk
    have hret : min (k + n) (lines raw).length - k < 2 ^ 64 := by omega
    rw [readPages, hread' (k + 1) (Nat.succ_pos k) (by omega), readPage, hstart]
    change ((jsonNat (min (k + n) (lines raw).length - k)).asU64.bind fun returnedLines =>
      if decide (min (k + n) (lines raw).length < (lines raw).length) = true then
        (readPages kernel ctx now path limit calls (k + 1 + returnedLines.toNat) files).map
          ((((lines raw).zipIdx.drop k).take
            (min (k + n) (lines raw).length - k)).flatMap numberedLine ++ ·)
      else some ((((lines raw).zipIdx.drop k).take
        (min (k + n) (lines raw).length - k)).flatMap numberedLine)) = _
    rw [asU64_jsonNat, if_pos hret, Option.bind_some, toNat_ofNat_of_lt hret]
    by_cases hmore : k + n < (lines raw).length
    · rw [min_eq_left hmore.le, Nat.add_sub_cancel_left, if_pos (decide_eq_true hmore),
        Nat.add_right_comm, ih hmore.le (by omega), Option.map_some, ← flatMap_append,
        ← drop_drop, take_append_drop]
    · rw [min_eq_right (Nat.le_of_not_lt hmore), if_neg (by simp), take_of_length_le]
      rw [length_drop, length_zipIdx]

/-- The file is accepted, and `raw` is its text. -/
def AcceptsText (kernel : Kernel) (ctx : InvocationContext) (now : DateTime) (files : Files)
    (path raw : Text) : Prop :=
  (exec (readAccepted kernel ctx now path) files).1 = .ok ((asBytes raw).length, raw)

/-- The pages of an accepted file are the numbered listing of its lines, whatever the limit, with no
more calls than there are lines and one. -/
theorem readPages_eq_listing (haccepts : AcceptsText kernel ctx now files path raw)
    (hpos : 1 ≤ limit) {calls : Nat} (hcalls : (Text.lines raw).length < calls) :
  readPages kernel ctx now path limit calls 1 files = some (numberedListing raw)
  := by
  have hsize : (asBytes raw).length ≤ maxReadBytes := returns_readAccepted _ _ haccepts
  have hlines := length_lines_le raw
  apply readPages_eq haccepts _ hpos (Nat.zero_le _) hcalls
  simp only [maxReadBytes] at hsize
  omega

/-- A file of two lines is read line by line. -/
theorem readPages_eq_listing_twoLines :
  readPages (EditCall.plain [] [] "one\ntwo" false).kernel
      (EditCall.plain [] [] "one\ntwo" false).ctx 0 "/data/notes" 1 3 1
      (EditCall.plain [] [] "one\ntwo" false).files
    = some (numberedListing "one\ntwo")
  := by
  apply readPages_eq_listing
  · rfl
  · decide
  · decide
