/-!
# JSON values

The values that documents hold. Every number that a document means is a natural number, so
numbers written any other way are kept as text: no field accepts one.

A text can be well-formed JSON and still hold parts that stand for nothing: half of a surrogate
pair in a string, or a number beyond the range of double precision. Such parts do no harm where
nobody looks at them, so they are values too, `unusable` ones, which every decoder refuses.
-/

namespace WorkflowPaths

/-- A JSON value. -/
inductive Json where
  /-- The literal `null`. -/
  | null
  /-- One of the literals `true` and `false`. -/
  | bool (b : Bool)
  /-- A number written with digits only. -/
  | nat (n : Nat)
  /-- A number with a sign, a fraction or an exponent, as it was written. -/
  | real (text : String)
  /-- A string. -/
  | string (s : String)
  /-- An array. -/
  | array (items : List Json)
  /-- An object, its members in the order of the text, repeated keys included. -/
  | object (members : List (String × Json))
  /-- A well-formed string, object or number that stands for no value. -/
  | unusable

namespace Json

mutual

/-- No part of the value is `unusable`. -/
def isUsable : Json → Bool
  | .null => true
  | .bool _ => true
  | .nat _ => true
  | .real _ => true
  | .string _ => true
  | .array items => itemsUsable items
  | .object members => membersUsable members
  | .unusable => false

/-- No part of a list of values is `unusable`. -/
def itemsUsable : List Json → Bool
  | [] => true
  | v :: r => v.isUsable && itemsUsable r

/-- No part of a list of members is `unusable`. -/
def membersUsable : List (String × Json) → Bool
  | [] => true
  | (_, v) :: r => v.isUsable && membersUsable r

end

mutual

/-- How many arrays and objects stand around the innermost part of the value. -/
def depth : Json → Nat
  | .array items => itemsDepth items + 1
  | .object members => membersDepth members + 1
  | _ => 0

/-- The greatest depth in a list of values. -/
def itemsDepth : List Json → Nat
  | [] => 0
  | v :: r => max v.depth (itemsDepth r)

/-- The greatest depth in a list of members. -/
def membersDepth : List (String × Json) → Nat
  | [] => 0
  | (_, v) :: r => max v.depth (membersDepth r)

end

end Json

end WorkflowPaths
