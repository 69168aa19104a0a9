/-!
# Errors in a field

Most of what can be wrong with a workflow or with options is wrong with one field. Such an error
says which field it is, what is wrong, and what to do about it.
-/

namespace WorkflowPaths

/-- An error in one field. -/
structure FieldError where
  /-- The field. -/
  field : String
  /-- What is wrong with it. -/
  message : String
  /-- What to do about it. -/
  suggestion : String
deriving DecidableEq, Repr

/-- The error in words. -/
def FieldError.text (e : FieldError) : String :=
  "Invalid value for '" ++ e.field ++ "': " ++ e.message ++ ". Suggestion: " ++ e.suggestion

end WorkflowPaths
