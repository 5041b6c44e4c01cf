import AaOS.Core.Error
import AaOS.Lib.Effect

/-!
# Files and descriptors

The files, the calls the file tools make on them, and the opening of a path as in
`aaos-tools/src/path_safe.rs`.  A `Kernel` answers the calls; the effects are fixed: `O_TRUNC`
empties an existing regular file, `O_CREAT` creates a missing one, and opening changes no other
file.
-/

open Eff

/-- The number of a file. -/
abbrev Ino : Type := Nat

/-- A file. -/
inductive Inode where
  | regular (bytes : List UInt8)
  | directory
  | special
deriving DecidableEq

/-- The files of the system, and whether the write step of the tool has begun. -/
structure Files where
  inode : Ino → Option Inode
  writing : Bool

/-- The error numbers that are told apart. -/
inductive Errno where
  | enosys
  | eperm
  | eloop
  | enoent
  | eacces
  | other (message : Text)

/-- The text of an error number. -/
def Errno.text : Errno → Text
  | .enosys => "ENOSYS: Function not implemented"
  | .eperm => "EPERM: Operation not permitted"
  | .eloop => "ELOOP: Too many symbolic links encountered"
  | .enoent => "ENOENT: No such file or directory"
  | .eacces => "EACCES: Permission denied"
  | .other message => message

inductive Transfer where
  | rdonly
  | wronly
  | rdwr
deriving DecidableEq

/-- The flags of an open call. -/
structure OFlag where
  transfer : Transfer
  creat : Bool := false
  trunc : Bool := false
  append : Bool := false
  directory : Bool := false
  path : Bool := false
  nofollow : Bool := true
  cloexec : Bool := true

/-- The flags for `openat2`, which refuses links by other means. -/
def OFlag.forOpenat2 (flags : OFlag) : OFlag := { flags with nofollow := false }

inductive AccessMode where
  | read
  | writeCreateTrunc
  | writeCreateAppend
  | readWriteCreate
  | pathOnly
  | readDir
deriving DecidableEq

def AccessMode.flags : AccessMode → OFlag
  | .read => { transfer := .rdonly }
  | .writeCreateTrunc => { transfer := .wronly, creat := true, trunc := true }
  | .writeCreateAppend => { transfer := .wronly, creat := true, append := true }
  | .readWriteCreate => { transfer := .rdwr, creat := true }
  | .pathOnly => { transfer := .rdonly, path := true }
  | .readDir => { transfer := .rdonly, directory := true }

/-- An open descriptor. -/
structure OwnedFd where
  raw : Nat
  ino : Ino

/-- The answers of the kernel to one tool; `writeAll` says after how many bytes and why a write
fails, and no error means success. -/
structure Kernel where
  createDirAll : Text → List Ino × Option Text
  openat2 : Text → OFlag → Except Errno OwnedFd
  openPath : Text → OFlag → Except Errno OwnedFd
  readlinkat : OwnedFd → Except Text Text
  metadata : OwnedFd → Option Text
  readToString : OwnedFd → List UInt8 → Except Text Text
  setLen : OwnedFd → Option Text
  seek : OwnedFd → Option Text
  writeAll : OwnedFd → Option (Nat × Text)
  flush : OwnedFd → Option Text

/-- A kernel for which every call succeeds and every path leads to the file `ino`. -/
def Kernel.single (ino : Ino) (canonical : Text) : Kernel where
  createDirAll _ := ([], none)
  openat2 _ _ := .ok ⟨3, ino⟩
  openPath _ _ := .ok ⟨3, ino⟩
  readlinkat _ := .ok canonical
  metadata _ := none
  readToString _ _ := .ok []
  setLen _ := none
  seek _ := none
  writeAll _ := none
  flush _ := none

abbrev ToolM (α : Type) : Type := Eff CoreError Files α

namespace Files

def set (files : Files) (ino : Ino) (inode : Inode) : Files :=
  { files with inode := Function.update files.inode ino (some inode) }

def makeDirs (files : Files) (created : List Ino) : Files :=
  { files with inode := fun ino =>
      if files.inode ino = none ∧ ino ∈ created then some .directory else files.inode ino }

def opened (files : Files) (flags : OFlag) (fd : OwnedFd) : Except Errno OwnedFd × Files :=
  match files.inode fd.ino with
  | some (.regular _) =>
    (.ok fd, if flags.trunc then files.set fd.ino (.regular []) else files)
  | some _ => (.ok fd, files)
  | none =>
    if flags.creat then (.ok fd, files.set fd.ino (.regular [])) else (.error .enoent, files)

/-- The effect of writing bytes from an offset on. -/
def write (files : Files) (ino : Ino) (offset : Nat) (bytes : List UInt8) : Files :=
  match files.inode ino with
  | some (.regular old) =>
    files.set ino (.regular (old.take offset ++ bytes ++ old.drop (offset + bytes.length)))
  | _ => files

def size (files : Files) (ino : Ino) : Nat :=
  match files.inode ino with
  | some (.regular bytes) => bytes.length
  | _ => 0

end Files

/-! ### Paths -/

def skippedComponent (component : Text) : Bool := component = [] || component = ['.']

/-- The first part of a path that `Path` does not split: the root or a leading `.`. -/
def pathHead (path : Text) : Text :=
  if path.head? = some '/' then ['/']
  else if path = ['.'] || ['.', '/'].isPrefixOf path then ['.']
  else []

def pathParent (path : Text) : Option Text :=
  let head := pathHead path
  let components := ((path.drop head.length).splitOn '/').reverse
  match components.dropWhile skippedComponent with
  | [] => if head = ['.'] then some [] else none
  | _ :: rest => some (head ++ Path.join (rest.dropWhile skippedComponent).reverse)

example :
  pathParent "/data//sub/./file" = some "/data//sub"
    ∧ pathParent "file" = some [] ∧ pathParent "/" = none
  := by
  decide

/-! ### Calls -/

def createDirAll (kernel : Kernel) (path : Text) : ToolM Unit :=
  ofStep fun files =>
    let (created, failure) := kernel.createDirAll path
    match failure with
    | none => (.ok (), files.makeDirs created)
    | some e =>
      (.error (.ipc ("failed to create directories: " ++ e)), files.makeDirs created)

def openCall (flags : OFlag) (answer : Except Errno OwnedFd) : ToolM (Except Errno OwnedFd) :=
  ofStep fun files =>
    match answer with
    | .error e => (.ok (.error e), files)
    | .ok fd => let (result, files) := files.opened flags fd; (.ok result, files)

def openError (path : Text) : Errno → CoreError
  | .eloop => .ipc ("refusing to open symlink at " ++ path
      ++ ": O_NOFOLLOW (capability TOCTOU guard)")
  | .enoent => .ipc ("file not found: " ++ path)
  | .eacces => .ipc ("permission denied: " ++ path)
  | e => .ipc ("open(" ++ path ++ ") failed: " ++ e.text)

def openat2Error (path : Text) : Errno → CoreError
  | .eloop => .ipc ("refusing to open path containing symlink: " ++ path
      ++ " (RESOLVE_NO_SYMLINKS — capability TOCTOU guard)")
  | .enoent => .ipc ("file not found: " ++ path)
  | .eacces => .ipc ("permission denied: " ++ path)
  | e => .ipc ("openat2(" ++ path ++ ") failed: " ++ e.text)

def openFallback (kernel : Kernel) (path : Text) (flags : OFlag) : ToolM OwnedFd := do
  match ← openCall flags (kernel.openPath path flags) with
  | .ok fd => pure fd
  | .error e => throw (openError path e)

def openDescriptor (kernel : Kernel) (path : Text) (flags : OFlag) : ToolM OwnedFd := do
  match ← openCall flags.forOpenat2 (kernel.openat2 path flags.forOpenat2) with
  | .ok fd => pure fd
  | .error .enosys | .error .eperm => openFallback kernel path flags
  | .error e => throw (openat2Error path e)

def safeOpenForCapability (kernel : Kernel) (path : Text) (mode : AccessMode) :
    ToolM (OwnedFd × Text) := do
  let fd ← openDescriptor kernel path mode.flags
  match kernel.readlinkat fd with
  | .ok canonical => pure (fd, canonical)
  | .error e =>
    throw (.ipc ("canonicalize fd " ++ Nat.toDigits 10 fd.raw ++ ": " ++ e))

def beginWrite : ToolM Unit := update fun files => { files with writing := true }

def writeAll (kernel : Kernel) (fd : OwnedFd) (offset : Files → Nat) (bytes : List UInt8)
    (message : Text) : ToolM Unit :=
  ofStep fun files =>
    match kernel.writeAll fd with
    | none => (.ok (), files.write fd.ino (offset files) bytes)
    | some (written, e) =>
      (.error (.ipc (message ++ e)), files.write fd.ino (offset files) (bytes.take written))

def callOrFail (failure : Option Text) (message : Text) : ToolM Unit :=
  check (failure.map fun e => .ipc (message ++ e))
