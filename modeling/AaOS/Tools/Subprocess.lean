import AaOS.Tools.Limits

/-!
# Tools that run other programs

`git_commit` and `cargo_run` of `aaos-tools/src` run a child in a workspace.  An argument that
begins with a dash is an option for the child, unless it is the value of another option or comes
after a separator.  Messages that begin with a dash are refused, but paths and extra arguments can
direct the child away from the workspace.
-/

open Eff Returns

/-! ### Child processes -/

/-- An argument of a child process, with where it comes from. -/
inductive Argument where
  | option (text : Text)
  | own (text : Text)
  | workspace (text : Text)
  | subcommand (text : Text)
  | input (text : Text)

namespace Argument

/-- The text of an argument. -/
def text : Argument → Text
  | option text | own text | workspace text | subcommand text | input text => text

/-- The arguments that begin with a dash, except for values of options that the tool has written, up
to the separator. -/
def optionPositions : List Argument → List Argument
  | [] => []
  | .option _ :: _ :: rest => optionPositions rest
  | arg :: rest =>
    if arg.text = "--" then [arg]
    else if arg.text.head? = some '-' then arg :: optionPositions rest
    else optionPositions rest

end Argument

/-- A program that is run. -/
structure Command where
  program : Text
  args : List Argument
  currentDir : Option Text := none

def Command.AdmitsNoOption (command : Command) : Prop :=
  ∀ text, .input text ∉ Argument.optionPositions command.args

/-- What a process leaves behind; there is no code if it was killed by a signal. -/
structure ProcessOutput where
  code : Option Int
  stdout : Text
  stderr : Text

namespace ProcessOutput

variable (output : ProcessOutput)

/-- The program exited with zero. -/
def success : Bool := output.code = some 0

def exitCode : Int := output.code.getD (-1)

end ProcessOutput

inductive ProcessFailure where
  | spawn (message : Text)
  | wait (message : Text)
  | elapsed

inductive SubprocessError where
  | core (e : CoreError)
  | timeout (seconds : Nat)

/-- The programs and the paths on the machine, and the time that a call takes. -/
structure Machinery where
  output : Command → Except ProcessFailure ProcessOutput
  pathExists : Text → Bool
  isFile : Text → Bool
  durationMs : Nat

def joinPath (path name : Text) : Text :=
  if path = [] ∨ path.getLast? = some '/' then path ++ name else path ++ '/' :: name

/-- A text cut after the last character that ends within the limit, with a mark. -/
def capBytes (s : Text) (max : Nat) : Text :=
  if Text.utf8Len s ≤ max then s
  else ((s.inits.filter (Text.utf8Len · ≤ max)).getLastD []) ++ ['…']

def textsParameter (input : Json) (name : Text) : Option (List Text) :=
  ((input.get name).bind Json.asArray).map fun elems => elems.filterMap Json.asStr

/-- A text parameter that was checked to be there. -/
def checkedParameter (input : Json) (name : Text) : Text :=
  ((input.get name).bind Json.asStr).getD []

def outputFields (output : ProcessOutput) (maxInlineOutput : Nat) : List (Text × Json) :=
  [("stdout", .str (capBytes output.stdout maxInlineOutput)),
    ("stderr", .str (capBytes output.stderr maxInlineOutput)),
    ("stdout_truncated", .bool (maxInlineOutput < Text.utf8Len output.stdout)),
    ("stderr_truncated", .bool (maxInlineOutput < Text.utf8Len output.stderr))]

def jsonInt (n : Int) : Json := .num (toString n).toList

section Tools

variable (machinery : Machinery)

/-! ### `git_commit` -/

namespace GitCommitTool

def defaultTimeoutSecs : Nat := 60

def maxInlineOutput : Nat := 2048

def gitCommand (ws subcommand : Text) (args : List Argument) : Command where
  program := "git"
  args := [.option "-C", .workspace ws, .own subcommand] ++ args

def runGitCommand (ws subcommand : Text) (args : List Argument) :
    Except SubprocessError ProcessOutput :=
  match machinery.output (gitCommand ws subcommand args) with
  | .ok output => .ok output
  | .error (.spawn e) =>
    .error (.core (.ipc ("failed to spawn git " ++ subcommand ++ ": " ++ e)))
  | .error (.wait e) =>
    .error (.core (.ipc ("git " ++ subcommand ++ " wait failed: " ++ e)))
  | .error .elapsed => .error (.timeout defaultTimeoutSecs)

/-- The identifier of the last commit; an error is not reported. -/
def getHeadCommitSha (ws : Text) : Option Text :=
  match runGitCommand machinery ws "rev-parse" [.own "HEAD"] with
  | .error _ => none
  | .ok output =>
    if output.success then
      let sha := Text.trim output.stdout
      if sha = [] then none else some sha
    else none

def runGitCommit (ws message : Text) (paths : List Text) :
    List Command × Except SubprocessError Json :=
  let add := gitCommand ws "add".toList (paths.map .input)
  match runGitCommand machinery ws "add".toList (paths.map .input) with
  | .error e => ([add], .error e)
  | .ok addOutput =>
    if addOutput.success then
      let args := [.option "-m".toList, .input message]
      let commit := gitCommand ws "commit".toList args
      match runGitCommand machinery ws "commit".toList args with
      | .error e => ([add, commit], .error e)
      | .ok output =>
        let nothing := (Text.find "nothing to commit".toList output.stderr).isSome
          || (Text.find "nothing to commit".toList output.stdout).isSome
        let success := output.success || nothing
        let looksUp := success && !nothing
        let sha := if looksUp then getHeadCommitSha machinery ws else none
        ([add, commit]
          ++ (if looksUp then [gitCommand ws "rev-parse".toList [.own "HEAD".toList]] else []),
          .ok (.obj ([("exit_code".toList, jsonInt output.exitCode),
            ("success".toList, .bool success),
            ("duration_ms".toList, jsonNat machinery.durationMs)]
            ++ outputFields output maxInlineOutput
            ++ [("commit_sha".toList, (sha.map Json.str).getD .null),
              ("nothing_to_commit".toList, .bool nothing)])))
    else
      ([add], .error (.core (.ipc ("git add failed with exit code ".toList
        ++ (toString addOutput.exitCode).toList ++ ": ".toList ++ addOutput.stderr))))

/-- The paths to add, by default the workspace. -/
def pathsOf (input : Json) : List Text := (textsParameter input "paths").getD [['.']]

variable (env : Surroundings) (ctx : InvocationContext) (input : Json)

/-- The input passes the checks that come before the first command. -/
def accepts : Bool :=
  (exec (check env ctx input) env.files).1.isOk
    && machinery.pathExists (joinPath (checkedParameter input "workspace") ".git")

/-- The commands that are run for an input, and the result. -/
def invoke : List Command × Except SubprocessError Json :=
  match (exec (check env ctx input) env.files).1 with
  | .error e => ([], .error (.core e))
  | .ok _ =>
    let workspace := checkedParameter input "workspace"
    if machinery.pathExists (joinPath workspace ".git") then
      runGitCommit machinery workspace (checkedParameter input "message") (pathsOf input)
    else
      ([], .error (.core (.ipc ("workspace '" ++ workspace
        ++ "' is not a git repository (no .git directory)"))))

end GitCommitTool

/-! ### `cargo_run` -/

namespace CargoRunTool

def defaultTimeoutSecs : Nat := 240

def maxInlineOutput : Nat := 8192

def cargoCommand (ws subcommand : Text) (extraArgs : List Text) : Command where
  program := "cargo"
  args := .subcommand subcommand :: extraArgs.map .input
  currentDir := some ws

def runCargo (ws subcommand : Text) (extraArgs : List Text) :
    List Command × Except SubprocessError Json :=
  let command := cargoCommand ws subcommand extraArgs
  ([command],
    match machinery.output command with
    | .error (.spawn e) => .error (.core (.ipc ("failed to spawn cargo: ".toList ++ e)))
    | .error (.wait e) => .error (.core (.ipc ("cargo wait failed: ".toList ++ e)))
    | .error .elapsed => .error (.timeout defaultTimeoutSecs)
    | .ok output =>
      .ok (.obj ([("subcommand".toList, .str subcommand),
        ("exit_code".toList, jsonInt output.exitCode),
        ("success".toList, .bool output.success),
        ("duration_ms".toList, jsonNat machinery.durationMs)]
        ++ outputFields output maxInlineOutput)))

/-- The extra arguments, by default none. -/
def extraArgsOf (input : Json) : List Text := (textsParameter input "args").getD []

variable (env : Surroundings) (ctx : InvocationContext) (input : Json)

/-- The input passes the checks that come before the first command. -/
def accepts : Bool :=
  (exec (check env ctx input) env.files).1.isOk
    && machinery.isFile (joinPath (checkedParameter input "workspace") "Cargo.toml")

/-- The commands that are run for an input, and the result. -/
def invoke : List Command × Except SubprocessError Json :=
  match (exec (check env ctx input) env.files).1 with
  | .error e => ([], .error (.core e))
  | .ok _ =>
    let workspace := checkedParameter input "workspace"
    if machinery.isFile (joinPath workspace "Cargo.toml") then
      runCargo machinery workspace (checkedParameter input "subcommand")
        (extraArgsOf input)
    else
      ([], .error (.core (.ipc ("workspace '" ++ workspace
        ++ "' has no Cargo.toml"))))

end CargoRunTool

end Tools

/-! ### Options of the input -/

theorem Argument.optionPositions_input_cons (text : Text) (rest : List Argument) :
  optionPositions (.input text :: rest)
    = if text = "--" then [.input text]
      else if text.head? = some '-' then .input text :: optionPositions rest
      else optionPositions rest
  := by
  rw [optionPositions]
  · rfl
  · rintro _ _ _ ⟨⟩

theorem exists_input_mem_optionPositions_iff (texts : List Text) :
  (∃ text, .input text ∈ Argument.optionPositions (texts.map .input))
    ↔ ∃ text ∈ texts, text.head? = some '-'
  := by
  induction texts with
  | nil => simp [Argument.optionPositions]
  | cons first texts ih =>
    rw [List.map_cons, Argument.optionPositions_input_cons]
    split_ifs with hsep hdash
    · have hdash : first.head? = some '-' := by
        rw [hsep]
        rfl
      simp [hdash]
    · simp [hdash]
    · rw [ih]
      simp [hdash]

/-- An argument that does not begin with a dash makes no difference. -/
theorem Argument.optionPositions_cons_of_ne {arg : Argument} {rest : List Argument}
    (hopt : ∀ text, arg ≠ .option text) (hdash : arg.text.head? ≠ some '-') :
  optionPositions (arg :: rest) = optionPositions rest
  := by
  rw [optionPositions]
  · have hsep : arg.text ≠ "--" := by
      intro heq
      rw [heq] at hdash
      contradiction
    rw [if_neg hsep, if_neg hdash]
  · intro text _ _ heq
    cases hopt text heq

theorem Command.admitsNoOption_iff_of_eq {command : Command} {texts : List Text}
    (heq : Argument.optionPositions command.args = Argument.optionPositions (texts.map .input)) :
  command.AdmitsNoOption ↔ ∀ text ∈ texts, text.head? ≠ some '-'
  := by
  have hiff := not_congr (exists_input_mem_optionPositions_iff texts)
  push Not at hiff
  rw [AdmitsNoOption, heq]
  apply hiff

namespace GitCommitTool

theorem optionPositions_gitCommand {ws subcommand : Text} (args : List Argument)
    (hdash : subcommand.head? ≠ some '-') :
  Argument.optionPositions (gitCommand ws subcommand args).args = Argument.optionPositions args
  := by
  change Argument.optionPositions (.own subcommand :: args) = _
  apply Argument.optionPositions_cons_of_ne
  · rintro _ ⟨⟩
  · apply hdash

theorem admitsNoOption_add_iff (ws : Text) (paths : List Text) :
  (gitCommand ws "add" (paths.map .input)).AdmitsNoOption
    ↔ ∀ path ∈ paths, path.head? ≠ some '-'
  := by
  apply Command.admitsNoOption_iff_of_eq
  apply optionPositions_gitCommand
  decide

theorem admitsNoOption_commit (ws message : Text) :
  (gitCommand ws "commit" [.option "-m", .input message]).AdmitsNoOption
  := by
  rw [Command.AdmitsNoOption, optionPositions_gitCommand _ (by decide)]
  rintro text ⟨⟩

theorem admitsNoOption_revParse (ws : Text) :
  (gitCommand ws "rev-parse" [.own "HEAD"]).AdmitsNoOption
  := by
  rw [Command.AdmitsNoOption, optionPositions_gitCommand _ (by decide)]
  rintro text ⟨⟩

theorem exists_runGitCommit_eq (machinery : Machinery) (ws message : Text) (paths : List Text) :
  ∃ later, (runGitCommit machinery ws message paths).1
      = gitCommand ws "add" (paths.map .input) :: later
    ∧ ∀ command ∈ later, command.AdmitsNoOption
  := by
  have hcom := admitsNoOption_commit ws message
  have hrev := admitsNoOption_revParse ws
  unfold runGitCommit
  rcases runGitCommand machinery ws "add" (paths.map .input) with e | addOutput
  · exact ⟨[], rfl, by simp⟩
  · dsimp only
    split_ifs
    · rcases runGitCommand machinery ws "commit" [.option "-m", .input message]
        with e | output
      · exact ⟨[_], rfl, by simpa using hcom⟩
      · dsimp only
        split_ifs
        · exact ⟨[_, _], rfl, by simpa using ⟨hcom, hrev⟩⟩
        · exact ⟨[_], rfl, by simpa using hcom⟩
    · exact ⟨[], rfl, by simp⟩

end GitCommitTool

namespace CargoRunTool

theorem admitsNoOption_cargo_iff (ws : Text) {subcommand : Text}
    (hallow : subcommand ∈ allowedSubcommands) (extraArgs : List Text) :
  (cargoCommand ws subcommand extraArgs).AdmitsNoOption
    ↔ ∀ arg ∈ extraArgs, arg.head? ≠ some '-'
  := by
  apply Command.admitsNoOption_iff_of_eq
  apply Argument.optionPositions_cons_of_ne
  · rintro _ ⟨⟩
  · have hall : ∀ subcommand ∈ allowedSubcommands, subcommand.head? ≠ some '-' := by decide
    apply hall subcommand hallow

theorem mem_allowedSubcommands_of_check {env : Surroundings} {ctx : InvocationContext}
    {input : Json} {grant : Grant} (hcheck : (exec (check env ctx input) env.files).1 = .ok grant) :
  checkedParameter input "subcommand" ∈ allowedSubcommands
  := by
  have hret : Returns
      (fun _ => checkedParameter input "subcommand" ∈ allowedSubcommands)
      (check env ctx input) := by
    refine after fun workspace => ?_
    refine bind (require _ _) fun subcommand hsub => ?_
    refine bind (refuseIf _ _) fun _ hall => ?_
    refine after fun _ => ?_
    refine pure ?_
    rw [checkedParameter, hsub]
    simpa using hall
  apply hret _ _ hcheck

end CargoRunTool

section Invocations

variable (machinery : Machinery) (env : Surroundings) (ctx : InvocationContext) (input : Json)

theorem GitCommitTool.forall_commands_iff :
  (∀ command ∈ (invoke machinery env ctx input).1, command.AdmitsNoOption)
    ↔ (accepts machinery env ctx input = true →
      ∀ path ∈ pathsOf input, path.head? ≠ some '-')
  := by
  unfold invoke accepts
  rcases (exec (check env ctx input) env.files).1 with e | grant
  · simp [Except.isOk, Except.toBool]
  · obtain ⟨later, heq, hlater⟩ := exists_runGitCommit_eq machinery
      (checkedParameter input "workspace") (checkedParameter input "message")
      (pathsOf input)
    dsimp only
    rcases machinery.pathExists (joinPath (checkedParameter input "workspace")
      ".git")
    · simp
    · rw [if_pos rfl, heq, List.forall_mem_cons, admitsNoOption_add_iff]
      constructor
      · rintro ⟨hpaths, -⟩ -
        apply hpaths
      · intro hpaths
        exact ⟨hpaths rfl, hlater⟩

theorem CargoRunTool.forall_commands_iff :
  (∀ command ∈ (invoke machinery env ctx input).1, command.AdmitsNoOption)
    ↔ (accepts machinery env ctx input = true →
      ∀ arg ∈ extraArgsOf input, arg.head? ≠ some '-')
  := by
  unfold invoke accepts
  rcases hcheck : (exec (check env ctx input) env.files).1 with e | grant
  · simp [Except.isOk, Except.toBool]
  · have hall := mem_allowedSubcommands_of_check hcheck
    dsimp only
    rcases machinery.isFile (joinPath (checkedParameter input "workspace")
      "Cargo.toml")
    · simp
    · rw [if_pos rfl, runCargo, List.forall_mem_singleton, admitsNoOption_cargo_iff _ hall]
      constructor
      · intro hargs _
        apply hargs
      · intro hargs
        apply hargs rfl

/-- The commands of `git_commit` and `cargo_run` have no string of the input in option position
exactly when no path or extra argument of an accepted input begins with a dash. -/
theorem subprocess_tools_no_option_injection_iff :
  ((∀ command ∈ (GitCommitTool.invoke machinery env ctx input).1, command.AdmitsNoOption)
    ↔ (GitCommitTool.accepts machinery env ctx input = true →
      ∀ path ∈ GitCommitTool.pathsOf input, path.head? ≠ some '-'))
  ∧ ((∀ command ∈ (CargoRunTool.invoke machinery env ctx input).1, command.AdmitsNoOption)
    ↔ (CargoRunTool.accepts machinery env ctx input = true →
      ∀ arg ∈ CargoRunTool.extraArgsOf input, arg.head? ≠ some '-'))
  := by
  constructor
  · apply GitCommitTool.forall_commands_iff
  · apply CargoRunTool.forall_commands_iff

end Invocations

/-! ### A path that is an option -/

def committingContext : InvocationContext where
  agentId := ⟨0⟩
  tokens := [⟨0⟩]
  capabilityRegistry :=
    (CapabilityRegistry.new.insert ⟨0⟩
      (CapabilityToken.issue 0 0 ⟨0⟩ (.gitCommit ['*']) {})).1

def obligingMachinery : Machinery where
  output _ := .ok ⟨some 0, [], []⟩
  pathExists _ := true
  isFile _ := true
  durationMs := 0

/-- An input whose only path is an option that reads the paths from another file. -/
def injectingInput : Json :=
  .obj [("workspace", .str "/repo"), ("message", .str "Done"),
    ("paths", .arr [.str "--pathspec-from-file=/tmp/paths"])]

/-- The path of the input is an option of `git add`. -/
theorem git_commit_admits_an_option :
  GitCommitTool.accepts obligingMachinery (Surroundings.oneFile "/".toList) committingContext
      injectingInput = true
  ∧ (GitCommitTool.invoke obligingMachinery (Surroundings.oneFile "/".toList) committingContext
        injectingInput).1.head?.map (fun command => Argument.optionPositions command.args)
      = some [.input "--pathspec-from-file=/tmp/paths".toList]
  ∧ ¬ ∀ command ∈ (GitCommitTool.invoke obligingMachinery (Surroundings.oneFile "/".toList)
        committingContext injectingInput).1, command.AdmitsNoOption
  := by
  refine ⟨rfl, rfl, ?_⟩
  intro hall
  apply hall _ (.head _) "--pathspec-from-file=/tmp/paths"
  apply List.Mem.head
