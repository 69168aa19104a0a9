import WorkflowPaths.Draft.Finish
import WorkflowPaths.Recording.Basic
import WorkflowPaths.Text.Decimal

/-!
# From recordings to workflows

The calls of a recording are registered in a draft in source order. A reference names the last
branch point of that name before the call and on no later line; with `@` and a line number behind
the name, the last one of that name on that line.
-/

namespace WorkflowPaths

namespace Recording

/-- Why a recording makes no workflow. -/
inductive Error where
  /-- A call lacks an argument, or the argument is blank. -/
  | missingArgument (line : UInt32) (kind : CallKind) (argument : String)
  /-- A reference names no branch point before the call. -/
  | unknownBranch (line : UInt32) (reference : String)
  /-- The calls make no valid workflow. -/
  | invalid (flaw : Draft.Flaw)
  /-- The text is no recording. -/
  | unreadable (reason : String)
deriving DecidableEq, Repr

/-- A call, named as in the source, lacks an argument. -/
def missingArgumentText (line : Nat) (call argument : String) : String :=
  "Line " ++ toString line ++ ": call '" ++ call ++ "' is missing required argument '" ++ argument
    ++ "'. Suggestion: pass '" ++ argument ++ "' explicitly so it can be read statically"

/-- The error in words. -/
def Error.message : Error → String
  | .missingArgument line kind argument =>
    missingArgumentText line.toNat kind.callName argument
  | .unknownBranch line reference =>
    "Line " ++ toString line.toNat ++ ": condition refers to unknown branch point '" ++ reference
      ++ "'. Suggestion: reference a decision or signal wait declared in the same workflow"
  | .invalid flaw => flaw.error.text
  | .unreadable reason =>
    "Failed to read workflow source: " ++ reason
      ++ ". Suggestion: check the document against the source schema"

end Recording

namespace Reference

/-- The text before and behind the last `@`, if there is one. -/
def splitAtSign (cs : List Char) : Option (List Char × List Char) :=
  let behind := cs.reverse.takeWhile (· != '@')
  match cs.reverse.dropWhile (· != '@') with
  | [] => none
  | _ :: before => some (before.reverse, behind.reverse)

/-- The name and the line that a reference asks for. What stands behind the last `@` is a line
only if it is a 32-bit number; otherwise all of the text is a name. -/
def parts (text : String) : String × Option UInt32 :=
  match splitAtSign text.toList with
  | none => (text, none)
  | some (name, line) =>
    match Text.boundedNumeral? UInt32.size (String.ofList line) with
    | some n => (String.ofList name, some (UInt32.ofNat n))
    | none => (text, none)

/-- The registered branch point is one that the reference asks for. -/
def names (text : String) (r : Registered Test) : Bool :=
  let (name, line) := parts text
  r.name == name && line.all (· == r.line)

/-- The number of the last registered branch point that the reference asks for, of those that are
not behind the line. -/
def find? (text : String) (line : UInt32) (branches : List (Registered Test)) : Option Nat :=
  ((branches.zipIdx.reverse.filter fun (r, _) => r.line ≤ line).find? fun (r, _) =>
    names text r).map (·.2)

end Reference

namespace Call

/-- An argument that has to be there and may not be blank. -/
def require (c : Call) (argument : String) (value : Option String) :
    Except Recording.Error String :=
  match value with
  | some v =>
    if Text.isBlankText v then .error (.missingArgument c.line c.kind argument) else .ok v
  | none => .error (.missingArgument c.line c.kind argument)

/-- The guard of a call behind the given branch points. -/
def guard (branches : List (Registered Test)) (c : Call) : Except Recording.Error Guard :=
  if c.membershipUnknown then .ok .unknown
  else c.conditions.foldlM (fun guard r =>
    match Reference.find? r.branch c.line branches with
    | some branch => .ok (guard.and branch r.outcome)
    | none => .error (.unknownBranch c.line r.branch)) .always

/-- Registers a call. The labels of a wait count only when both are given. -/
def register (d : Draft) (c : Call) : Except Recording.Error Draft := do
  let name ← c.require "name" c.name
  let guard ← c.guard d.branches
  match c.kind with
  | .activity => return d.addStep .activity name c.line guard
  | .childWorkflow => return d.addStep .childWorkflow name c.line guard
  | .externalSignal =>
    return d.addStep (.externalSignal (Target.classify c.target)) name c.line guard
  | .decision => return d.addDecision name c.line guard
  | .signalWait =>
    let condition ← c.require "condition" c.condition
    let timeout ← c.require "timeout" c.timeout
    let registered := d.addSignalWait name c.line condition timeout guard
    match c.trueLabel, c.falseLabel with
    | some t, some f => return registered.setLabels d.branches.length t f
    | _, _ => return registered

end Call

namespace Recording

/-- The calls in source order. -/
def orderedCalls (r : Recording) : List Call :=
  SourceOrder.sort Call.line r.calls

/-- The draft with all calls registered in source order. -/
def toDraft (r : Recording) : Except Error Draft :=
  r.orderedCalls.foldlM Call.register { name := r.workflow }

/-- The workflow that the calls make. -/
def toWorkflow (r : Recording) : Except Error Workflow := do
  let d ← r.toDraft
  d.finish.mapError .invalid

end Recording

end WorkflowPaths
