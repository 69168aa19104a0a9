import WorkflowPaths.Text.UpperCase

/-!
# Names as words

A name such as `withdrawFunds` is shown as the words `Withdraw Funds`: a space goes between an
ASCII lower-case letter and the ASCII upper-case letter after it, and the first character is
written in upper case. The boundary looks at ASCII letters only, the upper-casing follows the
full Unicode mapping.
-/

namespace WorkflowPaths.Text

/-- Puts a space between a lower-case and an upper-case ASCII letter, wherever such a pair is found
from the left. The search for the next pair goes on behind both letters. -/
def spaceWords : List Char → List Char
  | a :: b :: r =>
    if a.isLower && b.isUpper then a :: ' ' :: b :: spaceWords r
    else a :: spaceWords (b :: r)
  | cs => cs

/-- Writes the first character in upper case, as one or several characters. -/
def capitalize : List Char → List Char
  | [] => []
  | c :: r => upperCase c ++ r

/-- A name as words. -/
def splitWords (s : String) : String :=
  String.ofList (capitalize (spaceWords s.toList))

end WorkflowPaths.Text
