import CodeAtlas.Text.Lines
import CodeAtlas.Text.Quoted
import CodeAtlas.Text.Utf8

/-!
# Paths

A path is a list of parts below a root or below where one stands. Empty parts
and single dots mean nothing. Resolving a path takes a step up for each pair of
dots; links between directories are not followed.
-/

namespace CodeAtlas

open Text

structure Path where
  /-- The slashes that the path starts with: none, one or two. -/
  lead : String
  parts : List String
  deriving DecidableEq, Repr

namespace Path

/-- Two slashes at the start are kept, three and more count as one. -/
def leadOf : List Char → String
  | '/' :: '/' :: '/' :: _ => "/"
  | '/' :: '/' :: _ => "//"
  | '/' :: _ => "/"
  | _ => ""

/-- The parts of a text between slashes. -/
def partsOf (cs : List Char) : List String :=
  ((pieces '/' cs).map String.ofList).filter fun p => p != "" && p != "."

def ofText (s : String) : Path := ⟨leadOf s.toList, partsOf s.toList⟩

def isAbsolute (p : Path) : Bool := p.lead != ""

def text (p : Path) : String :=
  if p.lead == "" && p.parts.isEmpty then "." else p.lead ++ "/".intercalate p.parts

/-- A path below another; an absolute one stands alone. -/
def join (p q : Path) : Path := if q.isAbsolute then q else ⟨p.lead, p.parts ++ q.parts⟩

/-- The last part. -/
def name (p : Path) : String := p.parts.getLast?.getD ""

/-- The last dot of a name and what follows it, unless the dot is at either end. -/
def suffixOf (name : List Char) : List Char :=
  let tail := (name.reverse.takeWhile (· != '.')).reverse
  if tail.isEmpty || name.length ≤ tail.length + 1 then [] else '.' :: tail

/-- The suffix of the name in lower case. -/
def suffix (p : Path) : String :=
  String.ofList ((suffixOf p.name.toList).map Char.toLower)

/-- Takes the steps up. Above the root there is only the root. -/
def stepUp (done : List String) : List String → List String
  | [] => done.reverse
  | part :: rest => if part == ".." then stepUp (done.drop 1) rest else stepUp (part :: done) rest

/-- The path from the root, without steps up. -/
def resolve (p : Path) : Path := ⟨"/", stepUp [] p.parts⟩

/-- The parts below a directory. -/
def relativeTo? (p dir : Path) : Option Path :=
  if p.lead == dir.lead then (dir.parts.isPrefixOf? p.parts).map fun rest => ⟨"", rest⟩ else none

/-- Bytes that a URI holds as they are. -/
def isPlainByte (b : UInt8) : Bool :=
  let c := Char.ofNat b.toNat
  b < 128 && (c.isAlphanum || c == '_' || c == '.' || c == '-' || c == '~' || c == '/')

/-- A byte as an escape: a percent sign and two digits. -/
def uriByte (b : UInt8) : List Char :=
  if isPlainByte b then [Char.ofNat b.toNat] else '%' :: (hex 2 b.toNat).map Char.toUpper

/-- Whether a file can have the path: no name holds the character zero. -/
def isPossible (p : Path) : Bool := p.parts.all fun part => !part.toList.contains (Char.ofNat 0)

/-- The URI of a path. -/
def uri (p : Path) : String :=
  "file://" ++ String.ofList ((Utf8.encode p.resolve.text.toList).flatMap uriByte)

/-- The URI of a path that a file can have. -/
def uri? (p : Path) : Option String := if p.isPossible then some p.uri else none

/-- Paths are ordered part by part. -/
def partsLe : List String → List String → Bool
  | [], _ => true
  | _ :: _, [] => false
  | a :: as, b :: bs => if a = b then partsLe as bs else decide (a ≤ b)

end Path

end CodeAtlas
