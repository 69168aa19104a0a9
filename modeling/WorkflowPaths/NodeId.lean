import WorkflowPaths.Text.Blank

/-!
# Node ids

Every element of a diagram has an id. The ids of the start and the end are fixed, activities and
decisions are numbered, and the other calls are named after what they call and the line they
stand on. Ids are made of lower-case ASCII letters, digits and underscores, so that they can
stand in a diagram text without quoting.
-/

namespace WorkflowPaths

/-- What a node of a diagram is. -/
inductive NodeKind where
  /-- The start of the workflow. -/
  | start
  /-- The end of the workflow. -/
  | finish
  /-- An activity. -/
  | activity
  /-- A decision. -/
  | decision
  /-- A wait for a signal, which may time out. -/
  | signalWait
  /-- A call of another workflow. -/
  | childWorkflow
  /-- A signal sent to another workflow. -/
  | externalSignal
deriving DecidableEq, Repr

namespace NodeKind

/-- The kind as documents write it. -/
def tag : NodeKind → String
  | .start => "start"
  | .finish => "end"
  | .activity => "activity"
  | .decision => "decision"
  | .signalWait => "signal_wait"
  | .childWorkflow => "child_workflow"
  | .externalSignal => "external_signal"

/-- The kind as messages name it. -/
def words : NodeKind → String
  | .start => "start"
  | .finish => "end"
  | .activity => "activity"
  | .decision => "decision"
  | .signalWait => "signal wait"
  | .childWorkflow => "child workflow"
  | .externalSignal => "external signal"

end NodeKind

/-- What the id of a node is made from. -/
inductive NodeSeed where
  /-- The start. -/
  | start
  /-- The end. -/
  | finish
  /-- The activity with the given number. -/
  | activity (ordinal : Nat)
  /-- The decision with the given number. -/
  | decision (ordinal : Nat)
  /-- A wait for a signal. -/
  | signalWait (name : String) (line : UInt32)
  /-- A call of another workflow. -/
  | childWorkflow (name : String) (line : UInt32)
  /-- A signal sent to another workflow. -/
  | externalSignal (name : String) (line : UInt32)
deriving DecidableEq, Repr

/-- The character that stands for `c` in an id: ASCII letters in lower case, ASCII digits as
they are, and an underscore for all else. -/
def idChar (c : Char) : Char :=
  if c.isAlphanum then c.toLower else '_'

/-- The part of an id that stands for a name. -/
def idName (name : String) : String :=
  String.ofList ((Text.trimChars name.toList).map idChar)

/-- The id of the start of a workflow. -/
def startId : String := "s"

/-- The id of the end of a workflow. -/
def finishId : String := "e"

namespace NodeSeed

/-- The kind of the node. -/
def kind : NodeSeed → NodeKind
  | .start => .start
  | .finish => .finish
  | .activity _ => .activity
  | .decision _ => .decision
  | .signalWait _ _ => .signalWait
  | .childWorkflow _ _ => .childWorkflow
  | .externalSignal _ _ => .externalSignal

/-- The id of a call that is named after `name` and `line`. -/
def callId (label name : String) (line : UInt32) : String :=
  label ++ "_" ++ idName name ++ "_" ++ toString line.toNat

/-- The id of the node. -/
def id : NodeSeed → String
  | .start => startId
  | .finish => finishId
  | .activity n => toString n
  | .decision n => "d" ++ toString n
  | .signalWait name line => callId "sig" name line
  | .childWorkflow name line => callId "child" name line
  | .externalSignal name line => callId "ext_sig" name line

end NodeSeed

end WorkflowPaths
