import CodeAtlas.Table
import CodeAtlas.Text.Blank
import CodeAtlas.Text.Position
import CodeAtlas.Text.Word

/-!
# Attributes

The attributes of a block are the assignments at nesting depth zero of its body.
A value that starts with a quote ends at the closing quote; any other runs to
the end of its line, past line ends only inside brackets, and stops at a comment
or at a bracket that closes what it did not open.
-/

namespace CodeAtlas.Terraform

open CodeAtlas.Text

/-- The text between the first opening and the last closing brace; to the end when none closes. -/
def blockBody (block : List Char) : List Char :=
  match block.dropWhile (· != '{') with
  | [] => []
  | _ :: inner =>
    match inner.reverse.dropWhile (· != '}') with
    | [] => inner
    | _ :: body => body.reverse

/-- How much of a text belongs to a quoted value, after its opening quote. -/
def quotedLength : List Char → Nat
  | [] => 0
  | '\\' :: _ :: cs => quotedLength cs + 2
  | c :: cs => if c = '"' then 1 else quotedLength cs + 1

def isOpening (c : Char) : Bool := c == '[' || c == '{' || c == '('

def isClosing (c : Char) : Bool := c == ']' || c == '}' || c == ')'

/-- Whether a comment starts here. -/
def startsComment : List Char → Bool
  | '#' :: _ => true
  | '/' :: '/' :: _ => true
  | _ => false

/-- How much of a text belongs to an unquoted value, at a bracket depth and inside a string or
not. A backslash in a string always takes the next character with it, even past the end. -/
def plainLength (depth : Nat) (inString : Bool) : List Char → Nat
  | [] => 0
  | c :: cs =>
    if c = '\n' && depth = 0 then 0
    else if inString then
      if c = '\\' then
        match cs with
        | [] => 2
        | _ :: cs => plainLength depth true cs + 2
      else plainLength depth (c != '"') cs + 1
    else if c = '"' then plainLength depth true cs + 1
    else if depth = 0 && startsComment (c :: cs) then 0
    else if isOpening c then plainLength (depth + 1) false cs + 1
    else if isClosing c then
      if depth = 0 then 0 else plainLength (depth - 1) false cs + 1
    else plainLength depth false cs + 1

/-- The value at the start of a text, and how many characters it takes. -/
def capture : List Char → List Char × Nat
  | [] => ([], 0)
  | '"' :: cs =>
    let n := quotedLength cs + 1
    (('"' :: cs).take n, n)
  | cs =>
    let n := plainLength 0 false cs
    (trim (cs.take n), n)

/-- The value at a position of a text, and the position behind it. None when the position lies
before the start. -/
def captureAt? (text : List Char) (start : Int) : Option (List Char × Int) :=
  (readingFrom? text start).map fun ahead =>
    let stop := start + (capture ahead).2
    let taken := between text start stop
    (if ahead.head? = some '"' then taken else trim taken, stop)

/-- Opening less closing brackets. -/
def bracketDelta (cs : List Char) : Int := (cs.countP isOpening : Int) - cs.countP isClosing

/-- A trimmed text without the quotes around it. -/
def stripQuotes (cs : List Char) : List Char :=
  let cs := trim cs
  if 2 ≤ cs.length && cs.head? = some '"' && cs.getLast? = some '"' then
    (cs.drop 1).dropLast
  else cs

/-- A line that starts an assignment: the key, and what follows the equals sign and its blanks. -/
def assignment? (line : List Char) : Option (String × List Char) :=
  match trimLeft line with
  | [] => none
  | c :: cs =>
    if isIdentStart c then
      match trimLeft (cs.dropWhile isIdentChar) with
      | '=' :: rest =>
        if rest.head? = some '=' then none
        else some (String.ofList (c :: cs.takeWhile isIdentChar), trimLeft rest)
      | _ => none
    else none

/-- What stands behind the first line end. -/
def nextLine (cs : List Char) : List Char := (cs.dropWhile (· != '\n')).drop 1

theorem length_nextLine_lt {cs : List Char} {n : Nat} (h : cs.length ≤ n) (hn : 0 < n) :
    (nextLine cs).length < n := by
  have hle : (cs.dropWhile (· != '\n')).length ≤ cs.length :=
    (List.dropWhile_suffix _).length_le
  rw [nextLine, List.length_drop]
  omega

/-- The assignments of a body at a bracket depth. Only at depth zero a line can start one; its
value may run over several lines, and the search goes on at the line after it. -/
def assignmentsAt (depth : Nat) (body : List Char) : List (String × String) :=
  match body with
  | [] => []
  | c :: cs =>
    let line := (c :: cs).takeWhile (· != '\n')
    match if depth = 0 then assignment? line else none with
    | some (key, after) =>
      let value := (c :: cs).drop (line.length - after.length)
      let (taken, n) := capture value
      (key, String.ofList taken) :: assignmentsAt 0 (nextLine (value.drop n))
    | none => assignmentsAt (depth + bracketDelta line).toNat (nextLine (c :: cs))
termination_by body.length
decreasing_by
  · apply length_nextLine_lt
    · simp only [List.length_drop]
      omega
    · simp
  · exact length_nextLine_lt (Nat.le_refl _) (by simp)

/-- The assignments of a body. -/
def assignments (body : List Char) : List (String × String) := assignmentsAt 0 body

/-- The assignments in the body of a block. -/
def blockAssignments (block : List Char) : List (String × String) :=
  assignments (trim (blockBody block))

/-- The value of a block's attribute, without quotes around it. -/
def attribute? (block : List Char) (name : String) : Option String :=
  ((blockAssignments block).lookup name).map fun v => String.ofList (stripQuotes v.toList)

/-- Arguments that configure the call itself and not the module. -/
def metaArguments : List String :=
  ["source", "version", "providers", "count", "for_each", "depends_on"]

/-- What a module call passes to its module. -/
def moduleArguments (block : List Char) : Table String :=
  Table.ofPairs ((blockAssignments block).filter fun p => !metaArguments.contains p.1)

/-- The values that a block of locals defines. -/
def localValues (block : List Char) : Table String := Table.ofPairs (blockAssignments block)

/-- The provider of a resource: the one it names, or else its type up to the first underscore. -/
def providerOf (type : String) (block : List Char) : String :=
  match attribute? block "provider" with
  | some "" | none => String.ofList (type.toList.takeWhile (· != '_'))
  | some name => name

end CodeAtlas.Terraform
