import CodeAtlas.Text.Blank
import CodeAtlas.Text.Word

/-!
# Mentions

A block mentions variables, local values, modules, data sources and resources by
dotted names. The scan reads the text of the block, not its structure, so it
finds at least what the block depends on.
-/

namespace CodeAtlas.Terraform

open CodeAtlas.Text

/-- The length of the identifier at the start of a text. -/
def nameLength? : List Char → Option Nat
  | [] => none
  | c :: cs => if isIdentStart c then some ((cs.takeWhile isIdentChar).length + 1) else none

/-- The length of a dotted name whose first `n` characters are read: a dot and an identifier
follow. -/
def dotted? (n : Nat) (cs : List Char) : Option Nat :=
  match cs.drop n with
  | '.' :: rest => (nameLength? rest).map (n + 1 + ·)
  | _ => none

/-- The length of a name that a keyword opens. -/
def keyworded? (keyword : String) (cs : List Char) : Option Nat :=
  if keyword.toList.isPrefixOf cs then dotted? keyword.length cs else none

def dataMention? (cs : List Char) : Option Nat := do
  let n ← keyworded? "data" cs
  dotted? n cs

def isTypeChar (c : Char) : Bool := c.isLower || c.isDigit || c == '_'

/-- The length of a resource type: lower case letters and digits that start with a letter, then an
underscore and at least one character more. -/
def typeLength? (cs : List Char) : Option Nat :=
  let run := cs.takeWhile isTypeChar
  let provider := run.takeWhile (· != '_')
  if (run.head?.map Char.isLower).getD false && provider.length + 1 < run.length then
    some run.length
  else none

def resourceMention? (cs : List Char) : Option Nat := do
  let n ← typeLength? cs
  dotted? n cs

/-- The length of what further dots and identifiers follow a name. -/
def dottedTail (cs : List Char) : Nat :=
  match cs with
  | '.' :: rest =>
    match nameLength? rest with
    | some n => n + 1 + dottedTail (rest.drop n)
    | none => 0
  | _ => 0
termination_by cs.length
decreasing_by simp only [List.length_drop, List.length_cons]; omega

/-- The length of the dotted name at the start of a text, with as many parts as it has. -/
def dottedName? (cs : List Char) : Option Nat := do
  let n ← nameLength? cs
  let m ← dotted? n cs
  some (m + dottedTail (cs.drop m))

/-- The tokens of a text from left to right, without overlap. `length?` measures a token at the
start of a text, `after` says behind which character one may start, `before` is the character in
front, and the next `skip` characters belong to the last token. -/
def scan (length? : List Char → Option Nat) (after : Char → Bool) (before : Option Char)
    (skip : Nat) : List Char → List String
  | [] => []
  | c :: cs =>
    match skip with
    | skip + 1 => scan length? after (some c) skip cs
    | 0 =>
      match if (before.map after).getD true then length? (c :: cs) else none with
      | some n => String.ofList ((c :: cs).take n) :: scan length? after (some c) (n - 1) cs
      | none => scan length? after (some c) 0 cs

/-- A mention stands behind neither a word character nor a dot. -/
def allowsMention (c : Char) : Bool := !isWordChar c && c != '.'

/-- All mentions of a text, each once: variables, local values, modules, data sources and
resources, in this order and each group in the order of the text. -/
def mentions (text : List Char) : List String :=
  let found (length? : List Char → Option Nat) := scan length? allowsMention none 0 text
  (found (keyworded? "var") ++ found (keyworded? "local") ++ found (keyworded? "module") ++
    found dataMention? ++ found resourceMention?).eraseDups

/-- The inside of the brackets of a dependency list that starts here. -/
def dependencyList? (cs : List Char) : Option (List Char) := do
  let rest ← "depends_on".toList.isPrefixOf? cs
  match trimLeft rest with
  | '=' :: rest =>
    match trimLeft rest with
    | '[' :: inner => if inner.contains ']' then some (inner.takeWhile (· != ']')) else none
    | _ => none
  | _ => none

/-- The first dependency list of a text. -/
def firstDependencyList? (before : Option Char) : List Char → Option (List Char)
  | [] => none
  | c :: cs =>
    match if (before.map isWordChar).getD false then none else dependencyList? (c :: cs) with
    | some inner => some inner
    | none => firstDependencyList? (some c) cs

/-- The dependencies that a block states. -/
def statedDependencies (block : List Char) : List String :=
  match firstDependencyList? none block with
  | some inner => (scan dottedName? (fun _ => true) none 0 inner).eraseDups
  | none => []

end CodeAtlas.Terraform
