import WorkflowPaths.Files.Basic
import WorkflowPaths.Output
import WorkflowPaths.Path.Enumeration
import WorkflowPaths.Recording.Resolution

/-!
# Analysis

From a workflow or a recording to the output text: the options are checked, the paths enumerated
and rendered, together with the report if the options ask for it.
-/

namespace WorkflowPaths

/-- Why an analysis has no output. -/
inductive AnalysisError where
  /-- The options are not valid. -/
  | options (flaw : Options.Flaw)
  /-- The paths are not enumerated. -/
  | enumeration (error : EnumerationError)
  /-- The recording makes no workflow. -/
  | recording (error : Recording.Error)
  /-- The paths make no diagram. -/
  | diagram (error : DiagramError)
  /-- The output cannot be written. -/
  | file (path : String) (fault : FileFault)
deriving DecidableEq, Repr

/-- The error in words. -/
def AnalysisError.message : AnalysisError → String
  | .options flaw => flaw.error.text
  | .enumeration error => error.message
  | .recording error => error.message
  | .diagram error => error.message
  | .file path fault =>
    "Failed to write output to '" ++ path ++ "': " ++ fault.text
      ++ ". Suggestion: check that the directory exists and is writable"

namespace Analysis

/-- The report, if the options ask for it. -/
def report? (o : Options) (w : Workflow) : Option Report :=
  if o.reportEnabled then some (Report.ofWorkflow w) else none

/-- The output for a workflow. -/
def ofWorkflow (o : Options) (w : Workflow) : Except AnalysisError String := do
  o.check.mapError .options
  let paths ← (w.paths o).mapError .enumeration
  (Output.render o paths (report? o w)).mapError .diagram

/-- The output for a workflow that is checked before anything else. -/
def ofUnchecked (o : Options) (w : Workflow) : Except AnalysisError String := do
  w.check.mapError fun flaw => .recording (.invalid (.workflow flaw))
  ofWorkflow o w

/-- The output for a recording. -/
def ofRecording (o : Options) (r : Recording) : Except AnalysisError String := do
  let w ← r.toWorkflow.mapError .recording
  ofWorkflow o w

/-- Writes output to a file. -/
def save {m : Type → Type} [Monad m] (files : Files m) (path text : String) :
    m (Except AnalysisError Unit) := do
  match ← files.write path text with
  | .ok () => return .ok ()
  | .error fault => return .error (.file path fault)

/-- Writes the output for a workflow to a file, and gives it as well. -/
def toFile {m : Type → Type} [Monad m] (files : Files m) (o : Options) (w : Workflow)
    (path : String) : m (Except AnalysisError String) := do
  match ofWorkflow o w with
  | .error e => return .error e
  | .ok text =>
    match ← save files path text with
    | .error e => return .error e
    | .ok () => return .ok text

end Analysis

end WorkflowPaths
