import CodeAtlas.Text.Blank
import CodeAtlas.Text.Lines
import CodeAtlas.Text.Word

/-!
# The lines of a settings document

Before a settings document is read line by line, its text is gone through once.
Comments become blanks, and so do line ends inside the brackets of a list, so
that a statement stands on one line; only a text in three quotes may run over
several. On the way keys are checked: a key is a word or a quotation, or several
of them with dots between, and an equals sign follows it on the same line.

Looking back from the first characters goes on at the end of the text.
-/

namespace CodeAtlas.Value.Toml

open CodeAtlas.Text

/-- Why a settings document cannot be read. -/
inductive Fault
  /-- The document is malformed. -/
  | malformed
  /-- Something is looked for beyond the end of a text or in an empty list. -/
  | beyond
  /-- A value of another kind stands where a table should be. -/
  | mismatch
  /-- An escape stands for more than any character. -/
  | codePoint
  /-- A text without a name runs over several lines. -/
  | nameless
  /-- Brackets are nested too deeply. -/
  | deepNesting
  deriving DecidableEq, Repr

/-- Which kind of header the text is in. -/
inductive HeaderKind
  | none
  | table
  | list
  deriving DecidableEq, Repr

/-- Where in a key the text is. -/
inductive KeyState
  | none
  /-- In a word. -/
  | word
  /-- Behind a word or a quotation. -/
  | gap
  deriving DecidableEq, Repr

structure Layout where
  text : Array Char
  /-- Brackets of lists that are open. -/
  brackets : Int := 0
  /-- The quote of a text that is open. -/
  quote : Option Char := none
  /-- Whether three quotes have opened a text. -/
  spanning : Bool := false
  header : HeaderKind := .none
  /-- Whether only blanks have come since the start of the line. -/
  atStart : Bool := true
  key : KeyState := .none
  /-- Whether the key has a dot. -/
  dotted : Bool := false

namespace Layout

/-- The character at a position, which counts back from the end when it is below zero. -/
def at? (s : Layout) (p : Int) : Option Char :=
  if 0 ≤ p then s.text[p.toNat]?
  else if 0 ≤ s.text.size + p then s.text[(s.text.size + p).toNat]?
  else none

/-- How many times a character stands right before a position, up to a limit. -/
def runBefore (s : Layout) (c : Char) : (limit : Nat) → (p : Int) → Nat
  | 0, _ => 0
  | limit + 1, p => if s.at? (p - 1) = some c then s.runBefore c limit (p - 1) + 1 else 0

/-- A quote opens or closes a text; the third in a row a spanning one. -/
def toggle (s : Layout) (q : Char) (third : Bool) : Layout :=
  if third then { s with spanning := !s.spanning, quote := if s.spanning then none else some q }
  else { s with quote := if s.quote.isSome then none else some q }

/-- Whether an odd number of backslashes stands before a double quote, or before the three of which
it is the last. -/
def isEscaped (s : Layout) (i : Nat) (run : Nat) : Bool :=
  run != 1 && s.runBefore '\\' (2 * s.text.size) ((i : Int) - run) % 2 == 1

/-- What a quote does outside of keys. -/
def quoteAt (s : Layout) (i : Nat) (c : Char) : Layout :=
  let run := s.runBefore c 2 i
  if c = '\'' then if s.quote = some '"' then s else s.toggle c (run == 2)
  else if c = '"' then
    if s.quote = some '\'' || s.isEscaped i run then s else s.toggle c (run == 2)
  else s

/-- Blanks up to the end of the line. -/
def blankLine (text : Array Char) (j : Nat) : Array Char :=
  if h : j < text.size then
    if text[j] = '\n' then text else blankLine (text.set j ' ') (j + 1)
  else text
termination_by text.size - j
decreasing_by simp only [Array.size_set]; omega

def plain (s : Layout) : Bool := s.quote.isNone && s.header == .none

/-- What comments and brackets do. -/
def bracketAt (s : Layout) (i : Nat) (c : Char) : Layout :=
  if c = '#' && s.plain then { s with text := blankLine s.text i }
  else if c = '[' && s.plain then
    if s.atStart then
      { s with header := if s.text[i + 1]? = some '[' then .list else .table }
    else { s with brackets := s.brackets + 1 }
  else if c = ']' && s.quote.isNone then
    match s.header with
    | .table => { s with header := .none }
    | .list => if s.at? ((i : Int) - 1) = some ']' then { s with header := .none } else s
    | .none => { s with brackets := s.brackets - 1 }
  else s

def isQuote (c : Char) : Bool := c == '"' || c == '\''

/-- A blank in place of the character at a position. -/
def blankAt (s : Layout) (p : Int) : Layout :=
  let place := if p < 0 then s.text.size + p else p
  { s with text := s.text.setIfInBounds place.toNat ' ' }

/-- What a line end does. After two quotes in a spanning text it becomes a third, and a quote before
them a blank. -/
def lineEndAt (s : Layout) (i : Nat) : Except Fault Layout :=
  if s.spanning then
    match s.at? ((i : Int) - 1) with
    | some q =>
      if isQuote q && s.at? ((i : Int) - 2) = some q then
        let s := { s with text := s.text.setIfInBounds i q }
        let third := (i : Int) - 3
        if s.at? third = some q then .ok (s.blankAt third) else .ok s
      else .ok s
    | none => .ok s
  else if s.quote.isSome then .error .malformed
  else if s.brackets ≠ 0 then .ok { s with text := s.text.setIfInBounds i ' ' }
  else .ok { s with atStart := true }

/-- What the first character of a line does that is no blank. -/
def lineStartAt (s : Layout) (i : Nat) : Except Fault Layout :=
  match s.text[i]? with
  | some c =>
    if s.atStart && c ≠ ' ' && c ≠ '\t' then
      if s.header ≠ .none then .ok { s with atStart := false }
      else if c = '=' then .error .malformed
      else .ok { s with atStart := false, key := .word }
    else .ok s
  | none => .ok s

/-- What a character does that is not part of a key. -/
def valueAt (s : Layout) (i : Nat) (c : Char) : Except Fault Layout :=
  let s := (s.quoteAt i c).bracketAt i c
  if c = '\n' then s.lineEndAt i else s.lineStartAt i

/-- Behind a dot or a blank of a dotted key a word may follow. -/
def resumeKey (s : Layout) (i : Nat) : Except Fault Layout :=
  match s.text[i + 1]? with
  | none => .error .beyond
  | some c => .ok (if isBlank c || c == '.' then s else { s with key := .word })

/-- Ends the key at an equals sign, which is looked at again. -/
def endKey (s : Layout) (i : Nat) (c : Char) : Except Fault Layout :=
  if c = '=' then { s with key := .none, dotted := false }.valueAt i c else .error .malformed

/-- What a character of a key does. -/
def keyAt (s : Layout) (i : Nat) (c : Char) : Except Fault Layout :=
  if c = '\n' then .error .malformed
  else
    match s.quote, s.key with
    | some q, _ => .ok (if c = q then { s with quote := none, key := .gap } else s)
    | none, .gap =>
      if isBlank c then if s.dotted then s.resumeKey i else .ok s
      else if c = '.' then { s with dotted := true }.resumeKey i
      else s.endKey i c
    | none, _ =>
      if isBlank c then .ok { s with key := .gap }
      else if c = '.' then .ok { s with dotted := true }
      else if isWordChar c || c = '-' then .ok s
      else if s.dotted && isQuote c && s.at? ((i : Int) - 1) = some '.' then
        .ok { s with quote := some c }
      else s.endKey i c

/-- What the character at a place does. -/
def step (s : Layout) (i : Nat) : Except Fault Layout :=
  match s.text[i]? with
  | none => .ok s
  | some c => if s.key = .none then s.valueAt i c else s.keyAt i c

end Layout

/-- The lines of a document. -/
def lines (text : List Char) : Except Fault (List (List Char)) :=
  match (List.range text.length).foldlM Layout.step { text := text.toArray } with
  | .error e => .error e
  | .ok s =>
    if s.key ≠ .none || s.quote.isSome then .error .malformed
    else .ok (pieces '\n' s.text.toList)

end CodeAtlas.Value.Toml
