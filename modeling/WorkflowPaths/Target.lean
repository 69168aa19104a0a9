import WorkflowPaths.Json.Decoding
import WorkflowPaths.Text.Blank

/-!
# Targets of signals

The workflow that a signal is sent to, as far as it can be read off the call.
-/

namespace WorkflowPaths

/-- The receiver of a signal. -/
inductive Target where
  /-- The workflow with this id. -/
  | exact (id : String)
  /-- A workflow whose id fits the pattern; `{*}` stands for the part that is not known. -/
  | wildcard (pattern : String)
  /-- A workflow that is only known when the program runs. -/
  | dynamic
deriving DecidableEq, Repr

namespace Target

/-- The pattern stands somewhere in the text. -/
def hasInfix (pattern : List Char) : List Char → Bool
  | [] => pattern.isEmpty
  | c :: r => pattern.isPrefixOf (c :: r) || hasInfix pattern r

/-- The receiver that a call's argument names. The blanks around the argument do not count; no
argument, a blank one and the word `dynamic` all leave the receiver open. -/
def classify (argument : Option String) : Target :=
  match argument with
  | none => .dynamic
  | some text =>
    let text := Text.trim text
    if text = "" ∨ text = "dynamic" then .dynamic
    else if hasInfix ['{', '*', '}'] text.toList then .wildcard text
    else .exact text

/-- The receiver as labels show it. -/
def text : Target → String
  | .exact id => id
  | .wildcard pattern => pattern
  | .dynamic => "dynamic"

/-- The receiver is only known when the program runs. -/
def isDynamic : Target → Bool
  | .dynamic => true
  | _ => false

/-- The receiver as documents write it. -/
def toJson : Target → Json
  | .exact id => .object [("exact", .string id)]
  | .wildcard pattern => .object [("wildcard", .string pattern)]
  | .dynamic => .string "dynamic"

/-- The receiver that a document writes. -/
def ofJson? (how : Json.NoContents) (v : Json) : Option Target :=
  match v.variant? with
  | some ("exact", some (.string id)) => some (.exact id)
  | some ("wildcard", some (.string pattern)) => some (.wildcard pattern)
  | some ("dynamic", contents) => if how.allows contents then some .dynamic else none
  | _ => none

end Target

end WorkflowPaths
