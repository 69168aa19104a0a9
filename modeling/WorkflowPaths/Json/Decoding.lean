import WorkflowPaths.Json.Basic

/-!
# Decoding JSON values

How the documents of this library are laid out in JSON.

* A record is an object with the record's field names as keys, or an array of the fields in
  order. Keys that name no field are ignored, a field may not be given twice, and an array may
  leave out fields at its end.
* A variant without contents is its name, or an object whose only key is the name and whose
  value is `null`; a variant with contents is an object whose only key is the name.
* A tagged record has the name of its variant under an additional key, or, as an array, in front
  of its fields. It is read as a whole before its variant is known, so no part of it may be
  unusable, and its parts may not nest too deep.

Decoders give `none` for a value of another form.
-/

namespace WorkflowPaths.Json

/-- The string that a value is. -/
def string? : Json → Option String
  | .string s => some s
  | _ => none

/-- The truth value that a value is. -/
def bool? : Json → Option Bool
  | .bool b => some b
  | _ => none

/-- The natural number below `bound` that a value is. -/
def natBelow? (bound : Nat) : Json → Option Nat
  | .nat n => if n < bound then some n else none
  | _ => none

/-- A 32-bit number. -/
def uint32? (v : Json) : Option UInt32 :=
  (v.natBelow? UInt32.size).map UInt32.ofNat

/-- A 64-bit number. -/
def uint64? (v : Json) : Option UInt64 :=
  (v.natBelow? UInt64.size).map UInt64.ofNat

/-- A list of values of one form. -/
def list? {α : Type} (item : Json → Option α) : Json → Option (List α)
  | .array items => items.mapM item
  | _ => none

/-- A value of the given form, or `null`. -/
def nullable? {α : Type} (form : Json → Option α) : Json → Option (Option α)
  | .null => some none
  | v => (form v).map some

/-! ### Records -/

/-- A way to look up the fields of a record. -/
abbrev Fields := String → Option Json

/-- The fields of a record with the given field names, in order. -/
def fields? (names : List String) : Json → Option Fields
  | .object members =>
    if names.all fun name => (members.filter (·.1 == name)).length ≤ 1 then
      some fun name => (members.find? (·.1 == name)).map (·.2)
    else none
  | .array items =>
    if items.length ≤ names.length then some fun name => items[names.idxOf name]?
    else none
  | _ => none

/-- A field that has to be there. -/
def Fields.required {α : Type} (fields : Fields) (name : String) (form : Json → Option α) :
    Option α :=
  (fields name).bind form

/-- A field that stands for `default` when it is not there. -/
def Fields.withDefault {α : Type} (fields : Fields) (name : String) (default : α)
    (form : Json → Option α) : Option α :=
  match fields name with
  | some v => form v
  | none => some default

/-- A field that may be `null` or not there. -/
def Fields.optional {α : Type} (fields : Fields) (name : String) (form : Json → Option α) :
    Option (Option α) :=
  fields.withDefault name none (nullable? form)

/-! ### Variants -/

/-- The name of a variant, and its contents, if any are given. -/
def variant? : Json → Option (String × Option Json)
  | .string name => some (name, none)
  | .object [(name, contents)] => some (name, some contents)
  | _ => none

/-- How a variant without contents may write that it has none. -/
inductive NoContents where
  /-- Only as `null`. -/
  | null
  /-- As `null` or as an empty object. -/
  | nullOrEmpty
deriving DecidableEq, Repr

/-- The contents of a variant that has none are left out, or written as `how` allows. -/
def NoContents.allows (how : NoContents) : Option Json → Bool
  | none => true
  | some .null => true
  | some (.object []) => how = .nullOrEmpty
  | some _ => false

/-- A variant without contents, looked up by its name. -/
def named? {α : Type} (byName : String → Option α) (v : Json) : Option α :=
  match v.variant? with
  | some (name, contents) => if NoContents.null.allows contents then byName name else none
  | none => none

/-- How many arrays and objects may stand around a part of a text that is read. -/
def maxDepth : Nat := 127

/-- Splits a tagged record into its tag and its remaining fields, when it can be read as a whole
inside `level` arrays and objects. -/
def tagged? (tag : String) (level : Nat) (v : Json) : Option (String × Json) :=
  if !v.isUsable || maxDepth < v.depth + level then none
  else match v with
    | .object members =>
      match members.filter (·.1 == tag) with
      | [(_, .string name)] => some (name, .object (members.filter (·.1 != tag)))
      | _ => none
    | .array (.string name :: items) => some (name, .array items)
    | _ => none

end WorkflowPaths.Json
