import AaOS.Core.Error
import AaOS.Lib.Effect
import AaOS.Lib.Table

/-!
# The launch of a worker

`launch_impl` of `aaos-backend-linux/src/lib.rs` binds a socket, creates the worker, puts a session
into the map, and waits for the handshake.  A launch that fails after that removes the session and
the socket, but does nothing about the child.
-/

/-! ### Errors -/

inductive BackendError where
  | cloneFailed (message : Text)
  | uidMapFailed (message : Text)
  | readyTimeout (timeoutMs : Nat)
  | peerCredsMismatch (expected actual : Nat)
  | brokerIoFailed (message : Text)
  | sessionDirFailed (message : Text)

/-- The text of an error of the backend. -/
def BackendError.text : BackendError → Text
  | cloneFailed message => "clone() failed: " ++ message
  | uidMapFailed message => "uid/gid mapping failed: " ++ message
  | readyTimeout timeoutMs =>
    "worker did not reach sandboxed-ready within " ++ Nat.toDigits 10 timeoutMs
      ++ "ms"
  | peerCredsMismatch expected actual =>
    "peer-creds mismatch: expected pid " ++ Nat.toDigits 10 expected ++ ", got "
      ++ Nat.toDigits 10 actual
  | brokerIoFailed message => "broker I/O failed: " ++ message
  | sessionDirFailed message => "session directory setup failed: " ++ message

def BackendError.toCoreError (e : BackendError) : CoreError := .ipc e.text

/-! ### The handshake -/

/-- The credentials of the process at the other end of a socket. -/
structure PeerCreds where
  pid : Nat
  uid : Nat
  gid : Nat

/-- The session of a worker: the process that is expected at the other end of its socket. -/
structure WorkerSession where
  agentId : AgentId
  expected : PeerCreds
  socketPath : Text

def WorkerSession.peerCredsMatch (session : WorkerSession) (peer : PeerCreds) :
    Except BackendError Unit :=
  if peer.pid ≠ session.expected.pid then
    .error (.peerCredsMismatch session.expected.pid peer.pid)
  else if peer.uid ≠ session.expected.uid then
    .error (.brokerIoFailed ("peer uid mismatch: expected "
      ++ Nat.toDigits 10 session.expected.uid ++ ", got " ++ Nat.toDigits 10 peer.uid))
  else if peer.gid ≠ session.expected.gid then
    .error (.brokerIoFailed ("peer gid mismatch: expected "
      ++ Nat.toDigits 10 session.expected.gid ++ ", got " ++ Nat.toDigits 10 peer.gid))
  else .ok ()

inductive HandshakeRequest where
  | ready
  | sandboxedReady
  | other
deriving DecidableEq

inductive LineRead where
  | failed (message : Text)
  | closed
  | line (request : Except Text HandshakeRequest)

def LineRead.expect (request : HandshakeRequest) (closedMessage otherMessage : Text) :
    LineRead → Except BackendError Unit
  | failed message => .error (.brokerIoFailed message)
  | closed => .error (.brokerIoFailed closedMessage)
  | line (.error message) => .error (.brokerIoFailed message)
  | line (.ok request') =>
    if request' = request then .ok () else .error (.brokerIoFailed otherMessage)

structure Handshake where
  accept : Except Text Unit
  peer : Except Text PeerCreds
  first : LineRead
  ack : Except Text Unit
  second : LineRead

/-- Shake hands with the worker. -/
def Handshake.run (handshake : Handshake) (session : WorkerSession) : Except BackendError Unit := do
  handshake.accept.mapError .brokerIoFailed
  let peer ← handshake.peer.mapError .brokerIoFailed
  session.peerCredsMatch peer
  handshake.first.expect .ready "worker closed before ready"
    "first message was not `ready`"
  handshake.ack.mapError .brokerIoFailed
  handshake.second.expect .sandboxedReady "worker died before sandboxed-ready"
    "expected sandboxed-ready"

/-! ### The watchdog -/

/-- What `waitpid` returns when it does not block. -/
inductive WaitStatus where
  | stillAlive
  | exited (code : Int)
  | signaled (signal : Text)
  | other
  | failed (message : Text)

/-- The error with which the watchdog ends. -/
def WaitStatus.error : WaitStatus → Option BackendError
  | stillAlive | other => none
  | exited code =>
    some (.brokerIoFailed ("worker exited with status " ++ (toString code).toList
      ++ " before sandboxed-ready "
      ++ "(see AAOS_NAMESPACED_CHILD_DEBUG log for the failing step)"))
  | signaled signal =>
    some (.brokerIoFailed ("worker killed by signal " ++ signal
      ++ " before sandboxed-ready"))
  | failed message =>
    some (.brokerIoFailed ("waitpid on worker child failed: " ++ message))

/-- The call has waited for a child that ended. -/
def WaitStatus.reaps : WaitStatus → Bool
  | exited _ | signaled _ => true
  | _ => false

/-- The poll with which the watchdog ends, if there is one, and its error. -/
def watchdog (polls : List WaitStatus) : Option (WaitStatus × BackendError) :=
  polls.findSome? fun status => status.error.map fun e => (status, e)

/-! ### The launch -/

inductive ChildCall where
  | kill (pid : Nat)
  | reap (pid : Nat)

/-- The state of the backend: the map of sessions and the socket files. -/
structure BackendState where
  sessions : Table AgentId WorkerSession
  sockets : List Text

/-- The configuration of the backend, with the texts of identifiers. -/
structure NamespacedBackend where
  sessionDir : Text
  readyTimeoutMs : Nat
  agentText : AgentId → Text

/-- What a launch meets: the outcomes of its operations, and the polls of the watchdog. -/
structure LaunchEnv where
  permit : Bool
  ensureSessionDir : Except Text Unit
  removesOld : Bool
  bind : Except Text Unit
  setPermissions : Except Text Unit
  clone : Except Text Nat
  writeUidGidMaps : Except Text Unit
  go : Bool
  waits : Bool
  uid : Nat
  gid : Nat
  polls : List WaitStatus
  handshake : Option Handshake
  removes : Bool

structure Launched where
  state : BackendState
  calls : List ChildCall
  result : Except CoreError WorkerSession

namespace NamespacedBackend

variable (backend : NamespacedBackend) (env : LaunchEnv) (agentId : AgentId)

def socketPath : Text :=
  backend.sessionDir ++ "/" ++ backend.agentText agentId ++ ".sock"

def removeSocket (removes : Bool) (state : BackendState) : BackendState :=
  if removes then
    { state with sockets := state.sockets.filter (· ≠ backend.socketPath agentId) }
  else state

def killAndWait (waits : Bool) (pid : Nat) : List ChildCall :=
  .kill pid :: if waits then [.reap pid] else []

/-- Create the child process, and let it go on. -/
def cloneAndLaunchWorker : List ChildCall × Except BackendError Nat :=
  match env.clone with
  | .error message => ([], .error (.cloneFailed message))
  | .ok pid =>
    match env.writeUidGidMaps with
    | .error message => (killAndWait env.waits pid, .error (.uidMapFailed message))
    | .ok () =>
      if env.go then ([], .ok pid)
      else (killAndWait env.waits pid,
        .error (.cloneFailed "failed to signal child after uid/gid map"))

def sessionOf (pid : Nat) : WorkerSession :=
  ⟨agentId, ⟨pid, env.uid, env.gid⟩, backend.socketPath agentId⟩

def awaitReady (session : WorkerSession) : List ChildCall × Except BackendError Unit :=
  match watchdog env.polls with
  | some (status, e) => (if status.reaps then [.reap session.expected.pid] else [], .error e)
  | none =>
    match env.handshake with
    | some handshake => ([], handshake.run session)
    | none => ([], .error (.readyTimeout backend.readyTimeoutMs))

/-- Put the session of a child into the map and wait until it is ready. -/
def connect (pid : Nat) (state : BackendState) : Launched :=
  let session := backend.sessionOf env agentId pid
  let state := { state with sessions := AList.insert agentId session state.sessions }
  match backend.awaitReady env session with
  | (calls, .ok ()) => ⟨state, calls, .ok session⟩
  | (calls, .error e) =>
    let state := backend.removeSocket agentId env.removes state
    ⟨{ state with sessions := AList.erase agentId state.sessions }, calls,
      .error e.toCoreError⟩

def bindSocket (state : BackendState) : BackendState :=
  { state with sockets := backend.socketPath agentId :: state.sockets }

/-- Launch a worker for an agent. -/
def launch (state : BackendState) : Launched :=
  if env.permit = false then ⟨state, [], .error (.ipc "launch semaphore closed")⟩
  else
    match env.ensureSessionDir with
    | .error message => ⟨state, [], .error (BackendError.sessionDirFailed message).toCoreError⟩
    | .ok () =>
      let state := backend.removeSocket agentId env.removesOld state
      match env.bind with
      | .error message => ⟨state, [], .error (BackendError.brokerIoFailed message).toCoreError⟩
      | .ok () =>
        let state := backend.bindSocket agentId state
        match env.setPermissions with
        | .error message =>
          ⟨state, [], .error (BackendError.brokerIoFailed message).toCoreError⟩
        | .ok () =>
          match cloneAndLaunchWorker env with
          | (calls, .error e) =>
            ⟨backend.removeSocket agentId env.removes state, calls, .error e.toCoreError⟩
          | (_, .ok pid) => backend.connect env agentId pid state

/-! ### What is left behind -/

/-- There is no session and no socket of the agent, and its child was waited for. -/
structure LeavesNoProcess (pid : Nat) (state : BackendState) (calls : List ChildCall) : Prop where
  session : agentId ∉ state.sessions
  socket : backend.socketPath agentId ∉ state.sockets
  reaped : .reap pid ∈ calls

/-- There is no session and no socket of the agent, and its child was killed and waited for. -/
structure LeavesNothing (pid : Nat) (state : BackendState) (calls : List ChildCall) : Prop
    extends backend.LeavesNoProcess agentId pid state calls where
  killed : .kill pid ∈ calls

end NamespacedBackend

/-- The launch creates the child `pid`. -/
structure LaunchEnv.CreatesChild (env : LaunchEnv) (pid : Nat) : Prop where
  permit : env.permit = true
  ensureSessionDir : env.ensureSessionDir = .ok ()
  bind : env.bind = .ok ()
  setPermissions : env.setPermissions = .ok ()
  clone : env.clone = .ok pid

/-- The child is let go: its maps are written, and it is told so. -/
structure LaunchEnv.LetsGo (env : LaunchEnv) : Prop where
  writeUidGidMaps : env.writeUidGidMaps = .ok ()
  go : env.go = true

/-- The handshake meets the expected peer, which sends the expected lines. -/
structure Handshake.Succeeds (handshake : Handshake) (session : WorkerSession) : Prop where
  accept : handshake.accept = .ok ()
  peer : handshake.peer = .ok session.expected
  first : handshake.first = .line (.ok .ready)
  ack : handshake.ack = .ok ()
  second : handshake.second = .line (.ok .sandboxedReady)

theorem WorkerSession.peerCredsMatch_eq_ok_iff
    {session : WorkerSession} {peer : PeerCreds} {u : Unit} :
  session.peerCredsMatch peer = .ok u ↔ peer = session.expected
  := by
  obtain ⟨agentId, ⟨pid, uid, gid⟩, socketPath⟩ := session
  obtain ⟨pid', uid', gid'⟩ := peer
  simp only [peerCredsMatch, PeerCreds.mk.injEq]
  split_ifs with hpid huid hgid
  · simp [hpid]
  · simp [huid]
  · simp [hgid]
  · simp only [ne_eq, not_not] at hpid huid hgid
    simp [hpid, huid, hgid]

theorem LineRead.expect_eq_ok_iff
    {read : LineRead} {request : HandshakeRequest} {closedMessage otherMessage : Text} {u : Unit} :
  read.expect request closedMessage otherMessage = .ok u ↔ read = .line (.ok request)
  := by
  rcases read with message | _ | message | request'
  · simp [expect]
  · simp [expect]
  · simp [expect]
  · by_cases heq : request' = request
    all_goals simp [expect, heq]

theorem Handshake.run_eq_ok_iff {handshake : Handshake} {session : WorkerSession} :
  handshake.run session = .ok () ↔ handshake.Succeeds session
  := by
  simp only [run, Except.bind_eq_ok_iff, Except.mapError_eq_ok_iff,
    WorkerSession.peerCredsMatch_eq_ok_iff, LineRead.expect_eq_ok_iff]
  constructor
  · rintro ⟨_, hacc, peer, hpeer, _, rfl, _, hfirst, _, hack, hsec⟩
    use hacc, hpeer, hfirst, hack, hsec
  · rintro ⟨hacc, hpeer, hfirst, hack, hsec⟩
    use (), hacc, session.expected, hpeer, (), rfl, (), hfirst, (), hack, hsec

/-- No poll of the watchdog sees the child end. -/
def LaunchEnv.Quiet (env : LaunchEnv) : Prop :=
  ∀ status ∈ env.polls, status = .stillAlive ∨ status = .other

/-- The worker becomes ready: the handshake succeeds in time, and the child does not end
before. -/
structure LaunchEnv.Ready (env : LaunchEnv) (session : WorkerSession) : Prop where
  quiet : env.Quiet
  handshake : ∃ handshake, env.handshake = some handshake ∧ handshake.Succeeds session

/-- The watchdog sees that the child has ended. -/
def LaunchEnv.EndsEarly (env : LaunchEnv) : Prop :=
  ∃ status e, watchdog env.polls = some (status, e) ∧ status.reaps = true

theorem WaitStatus.error_eq_none_iff {status : WaitStatus} :
  status.error = none ↔ status = .stillAlive ∨ status = .other
  := by
  cases status <;> simp only [WaitStatus.error, reduceCtorEq, or_self, or_true, true_or]

theorem watchdog_eq_none_iff {env : LaunchEnv} :
  watchdog env.polls = none ↔ env.Quiet
  := by
  simp [watchdog, List.findSome?_eq_none_iff, WaitStatus.error_eq_none_iff, LaunchEnv.Quiet]

namespace NamespacedBackend

section Launch

variable {backend : NamespacedBackend} {env : LaunchEnv} {agentId : AgentId} {pid : Nat}
  {state : BackendState}

@[simp]
theorem removeSocket_sessions {removes : Bool} :
  (backend.removeSocket agentId removes state).sessions = state.sessions
  := by
  cases removes <;> rfl

@[simp]
theorem socketPath_mem_removeSocket {removes : Bool} :
  backend.socketPath agentId ∈ (backend.removeSocket agentId removes state).sockets
    ↔ removes = false ∧ backend.socketPath agentId ∈ state.sockets
  := by
  cases removes <;> simp [removeSocket]

theorem socketPath_mem_bindSocket :
  backend.socketPath agentId ∈ (backend.bindSocket agentId state).sockets
  := by
  simp [bindSocket]

theorem reap_mem_killAndWait {waits : Bool} :
  .reap pid ∈ killAndWait waits pid ↔ waits = true
  := by
  cases waits <;> simp [killAndWait]

theorem awaitReady_of_ready {session : WorkerSession} (hready : env.Ready session) :
  backend.awaitReady env session = ([], .ok ())
  := by
  obtain ⟨hquiet, handshake, hsome, hsucc⟩ := hready
  simp [awaitReady, watchdog_eq_none_iff.mpr hquiet, hsome, Handshake.run_eq_ok_iff.mpr hsucc]

theorem exists_awaitReady_of_not_ready
    (backend : NamespacedBackend) {session : WorkerSession} (hready : ¬ env.Ready session) :
  ∃ calls e, backend.awaitReady env session = (calls, .error e)
    ∧ (∀ pid, .kill pid ∉ calls)
    ∧ (.reap session.expected.pid ∈ calls ↔ env.EndsEarly)
  := by
  rcases hwatch : watchdog env.polls with _ | ⟨status, e⟩
  · have hnot : ¬ env.EndsEarly := by simp [LaunchEnv.EndsEarly, hwatch]
    rcases hsome : env.handshake with _ | handshake
    · use [], .readyTimeout backend.readyTimeoutMs
      simp [awaitReady, hwatch, hsome, hnot]
    · rcases hrun : handshake.run session with e | _
      · use [], e
        simp [awaitReady, hwatch, hsome, hrun, hnot]
      · cases hready ⟨watchdog_eq_none_iff.mp hwatch, handshake, hsome,
          Handshake.run_eq_ok_iff.mp hrun⟩
  · use if status.reaps then [.reap session.expected.pid] else [], e
    rcases hreaps : status.reaps <;> simp [awaitReady, LaunchEnv.EndsEarly, hwatch, hreaps]

theorem exists_launch_of_not_letsGo (backend : NamespacedBackend) (agentId : AgentId)
    (state : BackendState) (hchild : env.CreatesChild pid) (hgo : ¬ env.LetsGo) :
  ∃ bound e, backend.launch env agentId state
      = ⟨backend.removeSocket agentId env.removes bound, killAndWait env.waits pid, .error e⟩
    ∧ bound.sessions = state.sessions
    ∧ backend.socketPath agentId ∈ bound.sockets
  := by
  have hclone : ∃ e, cloneAndLaunchWorker env = (killAndWait env.waits pid, .error e) := by
    rcases hmaps : env.writeUidGidMaps with message | _
    · use .uidMapFailed message
      simp only [cloneAndLaunchWorker, hchild.clone, hmaps]
    · have hfalse : env.go ≠ true := fun htrue => hgo ⟨hmaps, htrue⟩
      use .cloneFailed "failed to signal child after uid/gid map"
      simp only [cloneAndLaunchWorker, hchild.clone, hmaps, if_neg hfalse]
  obtain ⟨e, hclone⟩ := hclone
  use backend.bindSocket agentId (backend.removeSocket agentId env.removesOld state), e.toCoreError
  constructor
  · simp [launch, hchild.permit, hchild.ensureSessionDir, hchild.bind, hchild.setPermissions,
      hclone]
  · exact ⟨removeSocket_sessions, socketPath_mem_bindSocket⟩

theorem exists_launch_of_letsGo (backend : NamespacedBackend) (agentId : AgentId)
    (state : BackendState) (hchild : env.CreatesChild pid) (hgo : env.LetsGo) :
  ∃ bound, backend.launch env agentId state = backend.connect env agentId pid bound
    ∧ backend.socketPath agentId ∈ bound.sockets
  := by
  have hclone : cloneAndLaunchWorker env = ([], .ok pid) := by
    simp [cloneAndLaunchWorker, hchild.clone, hgo.writeUidGidMaps, hgo.go]
  use backend.bindSocket agentId (backend.removeSocket agentId env.removesOld state)
  constructor
  · simp [launch, hchild.permit, hchild.ensureSessionDir, hchild.bind, hchild.setPermissions,
      hclone]
  · apply socketPath_mem_bindSocket

theorem exists_connect_of_not_ready (hready : ¬ env.Ready (backend.sessionOf env agentId pid))
    (hsock : backend.socketPath agentId ∈ state.sockets) :
  ∃ after calls e, backend.connect env agentId pid state = ⟨after, calls, .error e⟩
    ∧ agentId ∉ after.sessions
    ∧ (backend.socketPath agentId ∈ after.sockets ↔ env.removes = false)
    ∧ .kill pid ∉ calls
    ∧ (.reap pid ∈ calls ↔ env.EndsEarly)
  := by
  obtain ⟨calls, e, hawait, hkill, hreap⟩ := exists_awaitReady_of_not_ready backend hready
  have hres : ∃ e, (backend.connect env agentId pid state).result = .error e := by
    use e.toCoreError
    simp only [connect, hawait]
  have hcalls : (backend.connect env agentId pid state).calls = calls := by
    simp only [connect, hawait]
  obtain ⟨e, hres⟩ := hres
  use (backend.connect env agentId pid state).state, calls, e
  constructor
  · rw [← hcalls, ← hres]
  · refine ⟨?_, ?_, hkill pid, hreap⟩
    · simp [connect, hawait, AList.mem_erase]
    · simp [connect, hawait, hsock]

/-! ### Failed launches -/

def AfterFailure (backend : NamespacedBackend) (env : LaunchEnv) (agentId : AgentId)
    (state : BackendState) (P : Nat → BackendState → List ChildCall → Prop) : Prop :=
  ∀ pid, env.CreatesChild pid → ∀ e, (backend.launch env agentId state).result = .error e →
    P pid (backend.launch env agentId state).state (backend.launch env agentId state).calls

/-- The child is killed at once, all of this succeeds, and the agent has no earlier session. -/
structure UndoneAtOnce (env : LaunchEnv) (agentId : AgentId) (state : BackendState) : Prop where
  waits : env.waits = true
  removes : env.removes = true
  session : agentId ∉ state.sessions

theorem leavesNothing_iff_and {calls : List ChildCall} :
  backend.LeavesNothing agentId pid state calls
    ↔ backend.LeavesNoProcess agentId pid state calls ∧ .kill pid ∈ calls
  := by
  constructor
  all_goals
    rintro ⟨hleave, hkill⟩
    exact ⟨hleave, hkill⟩

theorem exists_launch_undone (hchild : env.CreatesChild pid) (hgo : ¬ env.LetsGo) :
  ∃ after calls e, backend.launch env agentId state = ⟨after, calls, .error e⟩
    ∧ .kill pid ∈ calls
    ∧ (backend.LeavesNoProcess agentId pid after calls ↔ UndoneAtOnce env agentId state)
  := by
  obtain ⟨bound, e, hlaun, hsession, hsock⟩ :=
    exists_launch_of_not_letsGo backend agentId state hchild hgo
  use backend.removeSocket agentId env.removes bound, killAndWait env.waits pid, e, hlaun,
    by simp [killAndWait]
  constructor
  · rintro ⟨hsess, hrem, hreap⟩
    rw [removeSocket_sessions, hsession] at hsess
    rw [socketPath_mem_removeSocket] at hrem
    use reap_mem_killAndWait.mp hreap, by simpa [hsock] using hrem
  · rintro ⟨hwaits, hremov, hsess⟩
    constructor
    case session => rwa [removeSocket_sessions, hsession]
    case socket => simp [hremov]
    case reaped => apply reap_mem_killAndWait.mpr hwaits

theorem exists_launch_not_ready (hchild : env.CreatesChild pid) (hgo : env.LetsGo)
    (hready : ¬ env.Ready (backend.sessionOf env agentId pid)) :
  ∃ after calls e, backend.launch env agentId state = ⟨after, calls, .error e⟩
    ∧ .kill pid ∉ calls
    ∧ (backend.LeavesNoProcess agentId pid after calls ↔ env.EndsEarly ∧ env.removes = true)
  := by
  obtain ⟨bound, hlaun, hsock⟩ := exists_launch_of_letsGo backend agentId state hchild hgo
  obtain ⟨after, calls, e, hcon, hsess, hrem, hkill, hreap⟩ :=
    exists_connect_of_not_ready hready hsock
  use after, calls, e, hlaun.trans hcon, hkill
  constructor
  · rintro ⟨-, hsock, hreaped⟩
    use hreap.mp hreaped
    rw [hrem, Bool.not_eq_false] at hsock
    apply hsock
  · rintro ⟨hearly, hremov⟩
    constructor
    case session => apply hsess
    case socket => simp [hrem, hremov]
    case reaped => apply hreap.mpr hearly

theorem launch_cases (backend : NamespacedBackend) (agentId : AgentId) (state : BackendState)
    (hchild : env.CreatesChild pid) :
  (¬ env.LetsGo
      ∧ ∃ after calls e, backend.launch env agentId state = ⟨after, calls, .error e⟩
        ∧ .kill pid ∈ calls
        ∧ (backend.LeavesNoProcess agentId pid after calls ↔ UndoneAtOnce env agentId state))
    ∨ (env.LetsGo ∧ env.Ready (backend.sessionOf env agentId pid)
      ∧ ∃ session, (backend.launch env agentId state).result = .ok session)
    ∨ (env.LetsGo ∧ ¬ env.Ready (backend.sessionOf env agentId pid)
      ∧ ∃ after calls e, backend.launch env agentId state = ⟨after, calls, .error e⟩
        ∧ .kill pid ∉ calls
        ∧ (backend.LeavesNoProcess agentId pid after calls
          ↔ env.EndsEarly ∧ env.removes = true))
  := by
  by_cases hgo : env.LetsGo
  · by_cases hready : env.Ready (backend.sessionOf env agentId pid)
    · right; left
      obtain ⟨bound, hlaun, -⟩ := exists_launch_of_letsGo backend agentId state hchild hgo
      use hgo, hready, backend.sessionOf env agentId pid
      rw [hlaun]
      simp only [connect, awaitReady_of_ready hready]
    · right; right
      exact ⟨hgo, hready, exists_launch_not_ready hchild hgo hready⟩
  · left
    exact ⟨hgo, exists_launch_undone hchild hgo⟩

end Launch

/-- A launch that creates a child and fails leaves nothing behind exactly when it fails before the
child is let go and can undo this. A child that has ended by itself is waited for. -/
theorem leavesNothing_iff
    (backend : NamespacedBackend) (env : LaunchEnv) (agentId : AgentId) (state : BackendState) :
  (backend.AfterFailure env agentId state (backend.LeavesNothing agentId)
      ↔ ∀ pid, env.CreatesChild pid →
        (¬ env.LetsGo → UndoneAtOnce env agentId state)
        ∧ (env.LetsGo → env.Ready (backend.sessionOf env agentId pid)))
    ∧ (backend.AfterFailure env agentId state (backend.LeavesNoProcess agentId)
      ↔ ∀ pid, env.CreatesChild pid →
        (¬ env.LetsGo → UndoneAtOnce env agentId state)
        ∧ (env.LetsGo → env.Ready (backend.sessionOf env agentId pid)
          ∨ env.EndsEarly ∧ env.removes = true))
  := by
  constructor
  · apply forall₂_congr
    intro pid hchild
    rcases launch_cases backend agentId state hchild with
      ⟨hgo, after, calls, e, hlaun, hkill, hleave⟩ | ⟨hgo, hready, session, hres⟩
        | ⟨hgo, hready, after, calls, e, hlaun, hkill, hleave⟩
    · simp [hlaun, hgo, leavesNothing_iff_and, hkill, hleave]
    · simp [hres, hgo, hready]
    · simp [hlaun, hgo, hready, leavesNothing_iff_and, hkill]
  · apply forall₂_congr
    intro pid hchild
    rcases launch_cases backend agentId state hchild with
      ⟨hgo, after, calls, e, hlaun, -, hleave⟩ | ⟨hgo, hready, session, hres⟩
        | ⟨hgo, hready, after, calls, e, hlaun, -, hleave⟩
    · simp [hlaun, hgo, hleave]
    · simp [hres, hgo, hready]
    · simp [hlaun, hgo, hready, hleave]

def silentEnv : LaunchEnv where
  permit := true
  ensureSessionDir := .ok ()
  removesOld := true
  bind := .ok ()
  setPermissions := .ok ()
  clone := .ok 42
  writeUidGidMaps := .ok ()
  go := true
  waits := true
  uid := 1000
  gid := 1000
  polls := [.stillAlive]
  handshake := none
  removes := true

def runBackend : NamespacedBackend := ⟨"/run/agentd", 10000, fun _ => "a"⟩

/-- A worker that does not connect in time is neither killed nor waited for. -/
theorem not_leavesNothing_silentEnv :
  ¬ runBackend.AfterFailure silentEnv ⟨1⟩ ⟨∅, []⟩ (runBackend.LeavesNothing ⟨1⟩)
  := by
  intro hafter
  have hchild : silentEnv.CreatesChild 42 := ⟨rfl, rfl, rfl, rfl, rfl⟩
  obtain ⟨-, hkill⟩ := hafter 42 hchild _ rfl
  cases hkill

end NamespacedBackend
