import CodeAtlas.Text.Lines

/-!
# Splitting

Texts are cut at a separator of one or more characters, as often as it stands
there or only a number of times, from the left.
-/

namespace CodeAtlas.Text

/-- What stands before the first occurrence of a separator, and what stands behind it. -/
def cutAt? (sep : List Char) : List Char → Option (List Char × List Char)
  | [] => none
  | c :: cs =>
    if sep.isPrefixOf (c :: cs) then some ([], (c :: cs).drop sep.length)
    else (cutAt? sep cs).map fun (before, after) => (c :: before, after)

/-- The parts between separators, of which at most a number is used. -/
def splitUpTo (sep : List Char) : Nat → List Char → List (List Char)
  | 0, cs => [cs]
  | n + 1, cs =>
    match cutAt? sep cs with
    | none => [cs]
    | some (before, after) => before :: splitUpTo sep n after

/-- The parts between all separators. -/
def splitAll (sep : List Char) (cs : List Char) : List (List Char) := splitUpTo sep cs.length cs

/-- How often a separator stands in a text. -/
def occurrences (sep : List Char) (cs : List Char) : Nat := (splitAll sep cs).length - 1

/-- Whether a separator stands in a text. -/
def contains (sep : List Char) (cs : List Char) : Bool := (cutAt? sep cs).isSome

/-- Without the first and the last `n` characters. -/
def withoutEnds (n : Nat) (cs : List Char) : List Char := (cs.drop n).take (cs.length - 2 * n)

/-- Whether a text ends with an odd number of backslashes. -/
def endsEscaped (cs : List Char) : Bool := (cs.reverse.takeWhile (· == '\\')).length % 2 == 1

end CodeAtlas.Text
