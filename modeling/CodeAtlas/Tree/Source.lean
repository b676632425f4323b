import CodeAtlas.Text.Blank
import CodeAtlas.Text.Lines
import CodeAtlas.Text.Utf8
import CodeAtlas.Tree.Node

/-!
# Sources of trees

The file a tree belongs to. Offsets count bytes of its text in UTF-8, and a row
is the number of line feeds in front of an offset.
-/

namespace CodeAtlas.Tree

open CodeAtlas.Text

structure Source where
  file : String
  language : String
  bytes : List UInt8
  lines : List (List Char)

namespace Source

def ofText (file language : String) (text : List Char) : Source where
  file := file
  language := language
  bytes := Utf8.encode text
  lines := sourceLines text

/-- The row of an offset. -/
def row (s : Source) (offset : Nat) : Nat := (s.bytes.take offset).count 10

/-- The number of the line on which a node starts, counted from one. -/
def line (s : Source) (n : Node) : Int := s.row n.start + 1

/-- The number of the line on which a node ends. -/
def endLine (s : Source) (n : Node) : Int := s.row n.stop + 1

/-- The text of a node. A range that cuts a character leaves replacement characters. -/
def chars (s : Source) (n : Node) : List Char :=
  Utf8.decodeReplacing ((s.bytes.drop n.start).take (n.stop - n.start))

def text (s : Source) (n : Node) : String := String.ofList (s.chars n)

/-- The line on which a node starts, trimmed. -/
def signature (s : Source) (n : Node) : String :=
  match s.lines[s.row n.start]? with
  | some line => String.ofList (trim line)
  | none => ""

/-- The content of a string node, without blanks and quotes around it. -/
def stringValue (s : Source) (n : Node) : String :=
  String.ofList (trimSet ['\x27', '"', '\x60'] (trim (s.chars n)))

end Source

/-- A line of a documentation comment, without blanks around it and without the star in front. -/
def cleanLine (line : List Char) : List Char :=
  match trim line with
  | '*' :: rest => trim rest
  | line => line

/-- The text of a documentation comment, without its delimiters and the stars at the start of its
lines. -/
def cleanDocComment (raw : List Char) : List Char :=
  let body := trim raw
  let body := if "/**".toList.isPrefixOf body then body.drop 3 else body
  let body := if "*/".toList.isSuffixOf body then body.take (body.length - 2) else body
  trim (joinPieces ['\n'] ((displayLines body).map cleanLine))

/-- A member access without blanks, and with plain dots for optional ones. -/
def plainAccess (text : List Char) : List Char :=
  plainDots (text.filter fun c => !isBlank c)
where
  /-- Replaces each question mark in front of a dot, and the dot, by a dot. -/
  plainDots : List Char → List Char
  | [] => []
  | '?' :: '.' :: cs => '.' :: plainDots cs
  | c :: cs => c :: plainDots cs

/-- Words that stand for values and never for functions. -/
def valueWords : List String := ["null", "undefined", "true", "false"]

/-- A name in capitals, with digits and underscores behind its first letter. One line feed may
follow it. -/
def isAllCaps (name : List Char) : Bool :=
  let name := if name.getLast? = some '\n' then name.dropLast else name
  match name with
  | [] => false
  | c :: cs => c.isUpper && cs.all fun c => c.isUpper || c.isDigit || c == '_'

/-- Whether an argument is taken for a value and not for a function: a value word, or a name whose
last part is in capitals. -/
def isValueName (text : String) : Bool :=
  valueWords.contains text || isAllCaps (text.toList.reverse.takeWhile (· != '.')).reverse

end CodeAtlas.Tree
