import WorkflowPaths.Analysis
import WorkflowPaths.Command.Arguments
import WorkflowPaths.Json.Reader
import WorkflowPaths.Options.Document

/-!
# The command

Reads options and a recording from files, analyses the recording, and prints the output or writes
it to a file. The options are read first, then changed by the arguments and checked, then the
recording is read.
-/

namespace WorkflowPaths.Command

/-- Why the command fails. -/
inductive Failure where
  /-- The file with the options cannot be read. -/
  | configUnreadable (path : String) (fault : FileFault)
  /-- The file with the options holds something else. -/
  | configInvalid (path : String)
  /-- The options are not valid. -/
  | options (flaw : Options.Flaw)
  /-- The file with the recording cannot be read. -/
  | sourceUnreadable (path : String) (fault : FileFault)
  /-- The file with the recording holds something else. -/
  | sourceInvalid
  /-- The analysis of the named workflow has no output. -/
  | analysis (workflow : String) (error : AnalysisError)
  /-- The output cannot be written. -/
  | output (error : AnalysisError)
deriving DecidableEq, Repr

namespace Failure

/-- What is said about a text that does not have the expected form. -/
def unexpectedForm : String := "the text does not have the expected form"

/-- The failure in words; for a text of another form, up to what is wrong with it. -/
def headline : Failure → String
  | .configUnreadable path fault =>
    "Failed to read config file '" ++ path ++ "': " ++ fault.text
  | .configInvalid path => "Failed to parse config file '" ++ path ++ "': "
  | .options flaw => flaw.error.text
  | .sourceUnreadable path fault =>
    "Failed to read workflow source '" ++ path ++ "': " ++ fault.text
  | .sourceInvalid => "Failed to read workflow source: "
  | .analysis workflow error => "Analysis of '" ++ workflow ++ "' failed: " ++ error.message
  | .output error => error.message

/-- The failure in words. -/
def message (f : Failure) : String :=
  match f with
  | .configInvalid _ => f.headline ++ unexpectedForm
  | .sourceInvalid => (Recording.Error.unreadable unexpectedForm).message
  | _ => f.headline

end Failure

/-- How the command ends. -/
inductive Result where
  /-- The arguments ask for no analysis. -/
  | usage (u : Usage)
  /-- Something failed. -/
  | failed (f : Failure)
  /-- The output is printed. -/
  | printed (text : String)
  /-- The output was written to a file. -/
  | saved
deriving DecidableEq, Repr

/-- How the command is called. -/
def usageText : String :=
  "Usage: [OPTIONS] <SOURCE_PATH>\n\n"
    ++ "  -c, --config <CONFIG>\n"
    ++ "  -f, --format <FORMAT>  (mermaid, paths, json)\n"
    ++ "  -o, --output <OUTPUT>\n"
    ++ "      --max-decision-points <MAX_DECISION_POINTS>\n"
    ++ "      --no-split-names\n"
    ++ "      --hide-external-signals\n"
    ++ "      --signal-labels <SIGNAL_LABELS>  (name-only, target-pattern)\n"
    ++ "      --validation-report\n"
    ++ "  -h, --help\n"
    ++ "  -V, --version\n"

namespace Result

/-- The exit code. -/
def exitCode : Result → UInt8
  | .usage .help => 0
  | .usage .version => 0
  | .usage .invalid => 2
  | .failed _ => 1
  | .printed _ => 0
  | .saved => 0

/-- What goes to the standard output. -/
def stdout : Result → String
  | .usage .help => usageText
  | .usage .version => "0.1.0\n"
  | .printed text => text
  | _ => ""

/-- What goes to the standard error. -/
def stderr : Result → String
  | .usage .invalid => usageText
  | .failed f => "\nError: " ++ f.message ++ "\n"
  | _ => ""

end Result

variable {m : Type → Type} [Monad m]

/-- A file's text, or the failure that `onFault` makes of its absence. -/
def readText (files : Files m) (path : String) (onFault : FileFault → Failure) :
    ExceptT Failure m String := do
  match ← files.read path with
  | .ok text => return text
  | .error fault => throw (onFault fault)

/-- The options that the file names, or the default ones. -/
def baseOptions (files : Files m) (config : Option String) : ExceptT Failure m Options := do
  match config with
  | none => return {}
  | some path =>
    let text ← readText files path (.configUnreadable path)
    match (Json.read? text).bind Options.ofJson? with
    | some o => return o
    | none => throw (.configInvalid path)

/-- The valid options that the file and the arguments ask for. -/
def options (files : Files m) (a : Arguments) : ExceptT Failure m Options := do
  let o := (← baseOptions files a.config).changeAll a.changes
  match o.check with
  | .ok () => return o
  | .error flaw => throw (.options flaw)

/-- The recording in the file at a path. -/
def recording (files : Files m) (path : String) : ExceptT Failure m Recording := do
  let text ← readText files path (.sourceUnreadable path)
  match Recording.ofText? text with
  | some r => return r
  | none => throw .sourceInvalid

/-- Prints the output, or writes it to the file that the arguments name. -/
def deliver (files : Files m) (output : Option String) (text : String) :
    ExceptT Failure m Result := do
  match output with
  | none => return .printed text
  | some path =>
    match ← ExceptT.lift (Analysis.save files path text) with
    | .ok () => return .saved
    | .error e => throw (.output e)

/-- The analysis of the recording at a path that the arguments ask for. -/
def analyse (files : Files m) (source : String) (a : Arguments) : ExceptT Failure m Result := do
  let o ← options files a
  let r ← recording files source
  match Analysis.ofRecording o r with
  | .ok text => deliver files a.output text
  | .error e => throw (.analysis r.workflow e)

/-- Runs the command with the given arguments. -/
def run (files : Files m) (args : List String) : m Result := do
  match Arguments.parse args with
  | .error u => return .usage u
  | .ok (source, a) =>
    match ← (analyse files source a).run with
    | .ok result => return result
    | .error f => return .failed f

end WorkflowPaths.Command
