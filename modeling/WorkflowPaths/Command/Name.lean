/-!
# Names of arguments

The settings and switches of the command, and the names and letters that stand for them.
-/

namespace WorkflowPaths.Command

/-- An argument that has a value. -/
inductive Setting where
  /-- The file with the options. -/
  | config
  /-- The form of the output. -/
  | format
  /-- The file for the output. -/
  | output
  /-- The most branch points that are allowed. -/
  | maxDecisionPoints
  /-- What the labels of external signals show. -/
  | signalLabels
deriving DecidableEq, Repr

/-- An argument without a value. -/
inductive Switch where
  /-- Show names as they are. -/
  | noSplitNames
  /-- Leave out external signals. -/
  | hideExternalSignals
  /-- Add the report to the output. -/
  | validationReport
deriving DecidableEq, Repr

/-- Why the arguments ask for no analysis. -/
inductive Usage where
  /-- They ask for help. -/
  | help
  /-- They ask for the version. -/
  | version
  /-- They cannot be understood. -/
  | invalid
deriving DecidableEq, Repr

/-- What an argument is called behind two dashes. -/
inductive Name where
  /-- A setting. -/
  | setting (s : Setting)
  /-- A switch. -/
  | switch (s : Switch)
  /-- A question about the command itself. -/
  | usage (u : Usage)
deriving DecidableEq, Repr

/-- The argument with the given name. -/
def Name.ofLong? : String → Option Name
  | "config" => some (.setting .config)
  | "format" => some (.setting .format)
  | "output" => some (.setting .output)
  | "max-decision-points" => some (.setting .maxDecisionPoints)
  | "signal-labels" => some (.setting .signalLabels)
  | "no-split-names" => some (.switch .noSplitNames)
  | "hide-external-signals" => some (.switch .hideExternalSignals)
  | "validation-report" => some (.switch .validationReport)
  | "help" => some (.usage .help)
  | "version" => some (.usage .version)
  | _ => none

/-- The argument with the given letter. -/
def Name.ofLetter? : Char → Option Name
  | 'c' => some (.setting .config)
  | 'f' => some (.setting .format)
  | 'o' => some (.setting .output)
  | 'h' => some (.usage .help)
  | 'V' => some (.usage .version)
  | _ => none

end WorkflowPaths.Command
