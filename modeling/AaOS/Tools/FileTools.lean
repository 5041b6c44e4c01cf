import AaOS.Tools.Context
import AaOS.Tools.FileSystem

/-!
# The tools that write files

`fileWrite` and `fileEdit` follow `aaos-tools/src/file_write.rs` and
`aaos-tools/src/file_edit.rs`.  Both open the path first and decide on the canonical path
of the open descriptor; `fileWrite` opens with `O_TRUNC` unless it appends.
-/

open Eff

def textParameter (input : Json) (name : Text) : ToolM Text :=
  require ((input.get name).bind Json.asStr)
    (.invalidManifest ("missing '" ++ name ++ "' parameter"))

def flagParameter (input : Json) (name : Text) : Bool :=
  ((input.get name).bind Json.asBool).getD false

/-- The UTF-8 encoding of a text. -/
def asBytes (s : Text) : List UInt8 := s.flatMap String.utf8EncodeChar

section Tools

variable (kernel : Kernel) (ctx : InvocationContext) (now : DateTime) (input : Json)

/-! ### Writing -/

/-- The largest content that is written. -/
def maxWriteBytes : Nat := 1048576

def writeMode (append : Bool) : AccessMode :=
  if append then .writeCreateAppend else .writeCreateTrunc

def createParent (path : Text) : ToolM Unit :=
  match pathParent path with
  | some parent => createDirAll kernel parent
  | none => pure ()

def fileWriteOpened (content : Text) (append : Bool) (opened : OwnedFd × Text) : ToolM Json := do
  let (fd, canonical) := opened
  refuseIf (!ctx.permitsCanonicalFile now .write canonical)
    (.capabilityDenied ctx.agentId (.fileWrite canonical)
      ("file_write not permitted for path: " ++ canonical))
  beginWrite
  writeAll kernel fd (fun files => if append then files.size fd.ino else 0) (asBytes content)
    "failed to write: "
  callOrFail (kernel.flush fd) "failed to flush: "
  pure (.obj [("bytes_written", jsonNat (Text.utf8Len content))])

/-- Write content to a file. -/
def fileWrite : ToolM Json := do
  let path ← textParameter input "path"
  let content ← textParameter input "content"
  let append := flagParameter input "append"
  refuseIf (Text.utf8Len content > maxWriteBytes)
    (.ipc ("content too large: " ++ Nat.toDigits 10 (Text.utf8Len content)
      ++ " bytes (max " ++ Nat.toDigits 10 maxWriteBytes ++ ")"))
  createParent kernel path
  let opened ← safeOpenForCapability kernel path (writeMode append)
  fileWriteOpened kernel ctx now content append opened

/-! ### Editing -/

/-- The largest text that is replaced or put in place of another one. -/
def maxEditStringBytes : Nat := 64 * 1024

/-- The largest file that is edited. -/
def maxFileBytes : Nat := 1048576

/-- The canonical path of the open file is permitted, and it is a regular file of limited size. -/
def checkEditable (fd : OwnedFd) (canonical : Text) : ToolM Nat := do
  refuseIf (!ctx.permitsCanonicalFile now .read canonical)
    (.capabilityDenied ctx.agentId (.fileRead canonical)
      ("file_edit needs file_read for path: " ++ canonical))
  refuseIf (!ctx.permitsCanonicalFile now .write canonical)
    (.capabilityDenied ctx.agentId (.fileWrite canonical)
      ("file_edit needs file_write for path: " ++ canonical))
  callOrFail (kernel.metadata fd) "metadata: "
  let isFile ← query fun files => (files.inode fd.ino).any (fun inode => inode matches .regular _)
  refuseIf (!isFile) (.ipc (canonical ++ " is not a regular file"))
  let len ← query fun files => files.size fd.ino
  refuseIf (len > maxFileBytes)
    (.ipc ("file too large to edit in-place: " ++ Nat.toDigits 10 len
      ++ " bytes (max " ++ Nat.toDigits 10 maxFileBytes
      ++ "). Use file_write for total rewrite."))
  pure len

/-- `read_to_string` on a descriptor. -/
def readToString (fd : OwnedFd) : ToolM Text := do
  let bytes ← query fun files =>
    match files.inode fd.ino with
    | some (.regular bytes) => bytes
    | _ => []
  match kernel.readToString fd bytes with
  | .ok original => pure original
  | .error e => throw (.ipc ("failed to read file: " ++ e))

def countNonOverlappingLoop (needle : Text) : Nat → Nat → Text → Nat
  | 0, count, _ => count
  | passes + 1, count, rest =>
    match Text.find needle rest with
    | none => count
    | some pos =>
      countNonOverlappingLoop needle passes (count + 1) (rest.drop (pos + needle.length))

def countNonOverlapping (haystack needle : Text) : Nat :=
  if needle.isEmpty then 0 else countNonOverlappingLoop needle haystack.length 0 haystack

def checkMatches (canonical original oldString : Text) (replaceAll : Bool) : ToolM Nat := do
  let matchCount := countNonOverlapping original oldString
  refuseIf (matchCount = 0) (.ipc ("old_string not found in " ++ canonical))
  refuseIf (matchCount > 1 && !replaceAll)
    (.ipc ("old_string matches " ++ Nat.toDigits 10 matchCount ++ " times in "
      ++ canonical ++ ("; refusing ambiguous edit. Pass replace_all=true to replace all, "
        ++ "or extend old_string with more context to make it unique.").toList))
  pure matchCount

def rewriteFile (fd : OwnedFd) (modified : Text) : ToolM Unit := do
  beginWrite
  callOrFail (kernel.setLen fd) "truncate: "
  update fun files => files.set fd.ino (.regular [])
  callOrFail (kernel.seek fd) "seek: "
  writeAll kernel fd (fun _ => 0) (asBytes modified) "failed to write file: "
  callOrFail (kernel.flush fd) "failed to flush: "

def fileEditOpened (oldString newString : Text) (replaceAll : Bool) (opened : OwnedFd × Text) :
    ToolM Json := do
  let (fd, canonical) := opened
  let bytesBefore ← checkEditable kernel ctx now fd canonical
  let original ← readToString kernel fd
  let matchCount ← checkMatches canonical original oldString replaceAll
  let modified := if replaceAll then Text.replace oldString newString original
    else Text.replacen oldString newString 1 original
  rewriteFile kernel fd modified
  pure (.obj [("bytes_after", jsonNat (Text.utf8Len modified)),
    ("bytes_before", jsonNat bytesBefore), ("path", .str canonical),
    ("replacements", jsonNat (if replaceAll then matchCount else 1))])

def fileEdit : ToolM Json := do
  let path ← textParameter input "path"
  let oldString ← textParameter input "old_string"
  let newString ← textParameter input "new_string"
  let replaceAll := flagParameter input "replace_all"
  refuseIf (oldString = []) (.invalidManifest "old_string must be non-empty")
  refuseIf (Text.utf8Len oldString > maxEditStringBytes
      || Text.utf8Len newString > maxEditStringBytes)
    (.ipc ("edit string too large: max " ++ Nat.toDigits 10 maxEditStringBytes
      ++ " bytes per side"))
  let opened ← safeOpenForCapability kernel path .readWriteCreate
  fileEditOpened kernel ctx now oldString newString replaceAll opened

end Tools
