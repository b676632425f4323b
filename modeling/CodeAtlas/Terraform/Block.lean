import CodeAtlas.Text.Blank
import CodeAtlas.Text.Lines
import CodeAtlas.Text.Position

/-!
# Blocks

A block opens on a line of its own kind: a keyword, its labels in quotes and an
opening brace. It runs on, line by line, until as many braces have closed as
have opened. No syntax tree is built: braces count wherever they stand.
-/

namespace CodeAtlas.Terraform

open CodeAtlas.Text

/-- The opening line of a block, by its kind and labels. -/
inductive Header
  | resource (type name : String)
  | dataSource (type name : String)
  | moduleCall (name : String)
  | variableDecl (name : String)
  | outputValue (name : String)
  | provider (name : String)
  | locals
  deriving DecidableEq, Repr

/-- The keyword of a block's kind. -/
def Header.keyword : Header → String
  | resource _ _ => "resource"
  | dataSource _ _ => "data"
  | moduleCall _ => "module"
  | variableDecl _ => "variable"
  | outputValue _ => "output"
  | provider _ => "provider"
  | locals => "locals"

/-- A label: at least one blank, then a text in quotes, which is not empty. -/
def label? : List Char → Option (String × List Char)
  | [] => none
  | c :: cs =>
    if isBlank c then
      match trimLeft cs with
      | '"' :: inner =>
        let name := inner.takeWhile (· != '"')
        match inner.dropWhile (· != '"') with
        | _ :: rest => if name.isEmpty then none else some (String.ofList name, rest)
        | [] => none
      | _ => none
    else none

/-- Whether a brace opens next. -/
def opensNext (cs : List Char) : Bool := (trimLeft cs).head? = some '{'

def oneLabel? (cs : List Char) : Option String := do
  let (name, rest) ← label? cs
  if opensNext rest then some name else none

def twoLabels? (cs : List Char) : Option (String × String) := do
  let (type, rest) ← label? cs
  let name ← oneLabel? rest
  some (type, name)

/-- What a line opens, if it opens a block. -/
def header? (line : List Char) : Option Header :=
  let cs := trimLeft line
  let rest := cs.dropWhile Char.isLower
  match String.ofList (cs.takeWhile Char.isLower) with
  | "resource" => (twoLabels? rest).map fun (type, name) => .resource type name
  | "data" => (twoLabels? rest).map fun (type, name) => .dataSource type name
  | "module" => (oneLabel? rest).map .moduleCall
  | "variable" => (oneLabel? rest).map .variableDecl
  | "output" => (oneLabel? rest).map .outputValue
  | "provider" => (oneLabel? rest).map .provider
  | "locals" => if opensNext rest then some .locals else none
  | _ => none

/-- Opening less closing braces. -/
def braceDelta (cs : List Char) : Int := (cs.count '{' : Int) - cs.count '}'

/-- Cuts lines after the first one at which, counted from the start, a brace has opened and no
more are open than closed; after the last line when there is none. `depth` and `opened` hold the
count so far. -/
def splitBlock (depth : Int) (opened : Bool) :
    List (List Char) → List (List Char) × List (List Char)
  | [] => ([], [])
  | line :: rest =>
    let depth := depth + braceDelta line
    let opened := opened || line.contains '{'
    if opened && decide (depth ≤ 0) then ([line], rest)
    else
      let (body, after) := splitBlock depth opened rest
      (line :: body, after)

theorem splitBlock_append (depth : Int) (opened : Bool) (lines : List (List Char)) :
    (splitBlock depth opened lines).1 ++ (splitBlock depth opened lines).2 = lines := by
  induction lines generalizing depth opened with
  | nil => rfl
  | cons line rest ih =>
    simp only [splitBlock]
    split
    · rfl
    · simp [ih]

theorem splitBlock_fst_ne_nil (depth : Int) (opened : Bool) (line : List Char)
    (rest : List (List Char)) : (splitBlock depth opened (line :: rest)).1 ≠ [] := by
  simp only [splitBlock]
  split <;> simp

theorem length_splitBlock_snd_lt (depth : Int) (opened : Bool) (line : List Char)
    (rest : List (List Char)) :
    (splitBlock depth opened (line :: rest)).2.length < (line :: rest).length := by
  have hlen := congrArg List.length (splitBlock_append depth opened (line :: rest))
  have hpos := List.length_pos_iff.mpr (splitBlock_fst_ne_nil depth opened line rest)
  rw [List.length_append] at hlen
  omega

/-- The lines of the block that opens on the first of `lines`, and the lines after it. -/
def cutBlock (lines : List (List Char)) : List (List Char) × List (List Char) :=
  splitBlock 0 false lines

/-- The text of the block that opens on the line at a position, and the position of its last line.
None when there is no such line. -/
def blockTextAt? (lines : List (List Char)) (start : Int) : Option (List Char × Int) :=
  (readingFrom? lines start).map fun ahead =>
    let last := if ahead.isEmpty then start else start + (cutBlock ahead).1.length - 1
    (joinPieces ['\n'] (between lines start (last + 1)), last)

structure Block where
  header : Header
  /-- The lines of the block, from its opening line to its last. -/
  lines : List (List Char)
  /-- The number of the opening line, counted from one. -/
  line : Int
  deriving DecidableEq, Repr

/-- The text of a block. -/
def Block.text (b : Block) : List Char := joinPieces ['\n'] b.lines

/-- Whether as many braces close as open. -/
def Block.isClosed (b : Block) : Bool := braceDelta b.text = 0

/-- The blocks of a list of lines, of which the first has the given number. After a block, the
search goes on behind its last line. -/
def blocks (number : Int) (lines : List (List Char)) : List Block :=
  match lines with
  | [] => []
  | line :: rest =>
    match header? line with
    | none => blocks (number + 1) rest
    | some header =>
      let cut := cutBlock (line :: rest)
      ⟨header, cut.1, number⟩ :: blocks (number + cut.1.length) cut.2
termination_by lines.length
decreasing_by
  · simp
  · exact length_splitBlock_snd_lt 0 false line rest

end CodeAtlas.Terraform
