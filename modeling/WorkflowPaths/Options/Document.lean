import WorkflowPaths.Json.Decoding
import WorkflowPaths.Options.Basic

/-!
# Options in documents

Options are a record; a field that is left out has its default value.
-/

namespace WorkflowPaths.Options

/-- A number, or `null`. -/
def limitJson : Option UInt64 → Json
  | some n => .nat n.toNat
  | none => .null

/-- The options as documents write them. -/
def toJson (o : Options) : Json :=
  .object [
    ("max_decision_points", .nat o.maxDecisionPoints.toNat),
    ("max_paths", limitJson o.maxPaths),
    ("start_node_label", .string o.startLabel),
    ("end_node_label", .string o.finishLabel),
    ("split_names_by_words", .bool o.splitNames),
    ("decision_true_label", .string o.trueLabel),
    ("decision_false_label", .string o.falseLabel),
    ("suppress_validation", .bool o.suppressValidation),
    ("include_validation_report", .bool o.includeReport),
    ("show_external_signals", .bool o.showExternalSignals),
    ("external_signal_label_style", .string o.signalLabels.name),
    ("output_format", .string o.format.name)]

/-- The names of the fields of a document with options. -/
def fieldNames : List String :=
  ["max_decision_points", "max_paths", "start_node_label", "end_node_label",
    "split_names_by_words", "decision_true_label", "decision_false_label", "suppress_validation",
    "include_validation_report", "show_external_signals", "external_signal_label_style",
    "output_format"]

/-- The options that a document writes; every field may be left out. -/
def ofJson? (v : Json) : Option Options := do
  let fields ← v.fields? fieldNames
  let base : Options := {}
  return {
    maxDecisionPoints :=
      ← fields.withDefault "max_decision_points" base.maxDecisionPoints Json.uint64?
    maxPaths := ← fields.withDefault "max_paths" base.maxPaths (Json.nullable? Json.uint64?)
    startLabel := ← fields.withDefault "start_node_label" base.startLabel Json.string?
    finishLabel := ← fields.withDefault "end_node_label" base.finishLabel Json.string?
    splitNames := ← fields.withDefault "split_names_by_words" base.splitNames Json.bool?
    trueLabel := ← fields.withDefault "decision_true_label" base.trueLabel Json.string?
    falseLabel := ← fields.withDefault "decision_false_label" base.falseLabel Json.string?
    suppressValidation :=
      ← fields.withDefault "suppress_validation" base.suppressValidation Json.bool?
    includeReport :=
      ← fields.withDefault "include_validation_report" base.includeReport Json.bool?
    showExternalSignals :=
      ← fields.withDefault "show_external_signals" base.showExternalSignals Json.bool?
    signalLabels :=
      ← fields.withDefault "external_signal_label_style" base.signalLabels
        (Json.named? SignalLabels.ofName?)
    format := ← fields.withDefault "output_format" base.format (Json.named? Format.ofName?) }

end WorkflowPaths.Options
