import WorkflowPaths.Command.Name
import WorkflowPaths.Options.Change
import WorkflowPaths.Text.Decimal

/-!
# Command line arguments

The command takes the path of a recording, settings with a value and switches without one. The
value of a setting stands in the next argument, or behind an equals sign in the same one, or,
after a setting's single letter, right behind the letter. An argument that starts with a dash,
a lone dash apart, is never taken for the value of the setting before it. Behind `--` no argument
is a setting or a switch. Nothing may be given twice.
-/

namespace WorkflowPaths.Command

/-- What the arguments say. -/
structure Arguments where
  /-- The path of the recording. -/
  source : Option String := none
  /-- The path of the options. -/
  config : Option String := none
  /-- The form of the output. -/
  format : Option Format := none
  /-- The path of the output. -/
  output : Option String := none
  /-- The most branch points that are allowed. -/
  maxDecisionPoints : Option UInt64 := none
  /-- What the labels of external signals show. -/
  signalLabels : Option SignalLabels := none
  /-- The switches that are on. -/
  switches : List Switch := []
deriving DecidableEq, Repr

namespace Arguments

/-- Records a value that was not given before. -/
def once {α : Type} (old : Option α) (value : Option α) : Except Usage (Option α) :=
  match old, value with
  | none, some v => .ok (some v)
  | _, _ => .error .invalid

/-- Records the value of a setting. -/
def assign (a : Arguments) (s : Setting) (value : String) : Except Usage Arguments :=
  match s with
  | .config => do return { a with config := ← once a.config (some value) }
  | .format => do return { a with format := ← once a.format (Format.ofName? value) }
  | .output => do return { a with output := ← once a.output (some value) }
  | .maxDecisionPoints => do
    let n := (Text.boundedNumeral? UInt64.size value).map UInt64.ofNat
    return { a with maxDecisionPoints := ← once a.maxDecisionPoints n }
  | .signalLabels => do
    return { a with signalLabels := ← once a.signalLabels (SignalLabels.ofName? value) }

/-- Turns a switch on. -/
def turnOn (a : Arguments) (s : Switch) : Except Usage Arguments :=
  if s ∈ a.switches then .error .invalid else .ok { a with switches := s :: a.switches }

/-- Records the path of the recording. -/
def setSource (a : Arguments) (path : String) : Except Usage Arguments := do
  return { a with source := ← once a.source (some path) }

/-- Records arguments that are no settings and no switches. -/
def setSources (a : Arguments) : List String → Except Usage Arguments
  | [] => .ok a
  | path :: rest => do setSources (← a.setSource path) rest

/-- The text before and behind the first equals sign. -/
def splitAtEquals (cs : List Char) : String × Option String :=
  let before := String.ofList (cs.takeWhile (· != '='))
  match cs.dropWhile (· != '=') with
  | [] => (before, none)
  | _ :: behind => (before, some (String.ofList behind))

/-- An argument that starts with a dash and has more than that. -/
def isDashed (arg : String) : Bool :=
  match arg.toList with
  | '-' :: _ :: _ => true
  | _ => false

/-- The name that a dashed argument has, if there is one, and the value in the same argument. -/
def dashed (arg : String) : Option Name × Option String :=
  match arg.toList with
  | '-' :: '-' :: cs =>
    let (name, value) := splitAtEquals cs
    (Name.ofLong? name, value)
  | '-' :: c :: cs =>
    let value := match cs with
      | [] => none
      | '=' :: r => some (String.ofList r)
      | _ => some (String.ofList cs)
    (Name.ofLetter? c, value)
  | _ => (none, none)

/-- Reads arguments from the first to the last. -/
def readAll (a : Arguments) : List String → Except Usage Arguments
  | [] => .ok a
  | arg :: rest =>
    if arg = "--" then a.setSources rest
    else if !isDashed arg then do readAll (← a.setSource arg) rest
    else match dashed arg with
      | (some (.setting s), some value) => do readAll (← a.assign s value) rest
      | (some (.setting s), none) =>
        match rest with
        | [] => .error .invalid
        | value :: rest =>
          if isDashed value then .error .invalid
          else do readAll (← a.assign s value) rest
      | (some (.switch s), none) => do readAll (← a.turnOn s) rest
      | (some (.usage u), none) => .error u
      | _ => .error .invalid

/-- What the arguments of a command say, with the path of the recording, which has to be among
them, in front. -/
def parse (args : List String) : Except Usage (String × Arguments) := do
  let a ← readAll {} args
  match a.source with
  | some path => .ok (path, a)
  | none => .error .invalid

/-- The change of options that a switch asks for. -/
def switchChange : Switch → Options.Change
  | .noSplitNames => .splitNames false
  | .hideExternalSignals => .showExternalSignals false
  | .validationReport => .includeReport true

/-- The changes of options that the arguments ask for. -/
def changes (a : Arguments) : List Options.Change :=
  (a.format.map .format).toList
    ++ (a.maxDecisionPoints.map .maxDecisionPoints).toList
    ++ (a.signalLabels.map .signalLabels).toList
    ++ a.switches.map switchChange

end Arguments

end WorkflowPaths.Command
