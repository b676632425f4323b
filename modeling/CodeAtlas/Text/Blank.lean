/-!
# Blank characters

Blank characters are those of the Unicode property White_Space together with the
four information separators U+001C to U+001F. Trimming and splitting into words
go by this set. Splitting into display lines goes by the smaller set of line
separators, of which a carriage return followed by a line feed is one.
-/

namespace CodeAtlas.Text

def isBlank (c : Char) : Bool :=
  let n := c.toNat
  (0x09 ≤ n && n ≤ 0x0d) || (0x1c ≤ n && n ≤ 0x20) || n == 0x85 || n == 0xa0 || n == 0x1680 ||
  (0x2000 ≤ n && n ≤ 0x200a) || n == 0x2028 || n == 0x2029 || n == 0x202f || n == 0x205f ||
  n == 0x3000

def trimLeft (cs : List Char) : List Char := cs.dropWhile isBlank

def trimRight (cs : List Char) : List Char := (trimLeft cs.reverse).reverse

/-- Without the blanks at both ends. -/
def trim (cs : List Char) : List Char := trimRight (trimLeft cs)

@[simp] theorem trim_nil : trim [] = [] := rfl

/-- Characters of `set` removed from both ends. -/
def trimSet (set : List Char) (cs : List Char) : List Char :=
  ((cs.dropWhile set.contains).reverse.dropWhile set.contains).reverse

/-- The maximal runs of characters that are not blank. -/
def words (cs : List Char) : List (List Char) :=
  go cs []
where
  /-- `run` is the current run, last character first. -/
  go : List Char → List Char → List (List Char)
  | [], run => if run.isEmpty then [] else [run.reverse]
  | c :: cs, run =>
    if isBlank c then
      if run.isEmpty then go cs [] else run.reverse :: go cs []
    else go cs (c :: run)

/-- Line separators of display lines. -/
def isLineBreak (c : Char) : Bool :=
  let n := c.toNat
  (0x0a ≤ n && n ≤ 0x0d) || (0x1c ≤ n && n ≤ 0x1e) || n == 0x85 || n == 0x2028 || n == 0x2029

/-- Display lines. A separator at the very end opens no further line. -/
def displayLines (cs : List Char) : List (List Char) :=
  go cs []
where
  /-- `line` is the current line, last character first. -/
  go : List Char → List Char → List (List Char)
  | [], line => if line.isEmpty then [] else [line.reverse]
  | '\r' :: '\n' :: cs, line => line.reverse :: go cs []
  | c :: cs, line => if isLineBreak c then line.reverse :: go cs [] else go cs (c :: line)

end CodeAtlas.Text
