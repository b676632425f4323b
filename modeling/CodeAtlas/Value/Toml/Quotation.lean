import CodeAtlas.Text.Split
import CodeAtlas.Value.Json.Parser
import CodeAtlas.Value.Toml.Layout

/-!
# Quotations

A text stands in single or double quotes, one or three of a kind. Between double
quotes a backslash makes an escape. Parts of a line that stand in quotes are told
from others by counting quotes only.
-/

namespace CodeAtlas.Value.Toml

open CodeAtlas.Text

/-- Moves parts between double quotes into parts between single quotes until an odd number of these
has been reached: a single quote that is open hides double quotes. -/
def absorb : List (List Char) → List (List Char) → List (List Char) × List (List Char)
  | single, [] => (single, [])
  | single, d :: ds =>
    if single.length % 2 = 0 then
      absorb (single.dropLast ++ pieces '\'' (single.getLast?.getD [] ++ '"' :: d)) ds
    else (single, d :: ds)

/-- The parts of a line between its quotes. The first part is outside of quotes, the next inside,
and so on. -/
def quoteParts (line : List Char) : List (List Char) :=
  match pieces '"' line with
  | [] => []
  | first :: rest =>
    if !rest.isEmpty && first.contains '\'' then
      match absorb (pieces '\'' first) rest with
      | (single, []) => single
      | (single, d :: ds) => single ++ pieces '\'' d ++ ds
    else pieces '\'' first ++ rest

/-- How many times a line has to be cut at a separator so that the last cut is the first one outside
of quotes. -/
def cutsNeeded (sep : List Char) : (inside : Bool) → List (List Char) → Nat
  | _, [] => 1
  | inside, part :: rest =>
    if !inside && Text.contains sep part then 1
    else occurrences sep part + cutsNeeded sep (!inside) rest

/-- The character of an escape of one letter. -/
def letterEscape? : Char → Option Char
  | '0' => some (Char.ofNat 0)
  | 'b' => some (Char.ofNat 0x08)
  | 'f' => some (Char.ofNat 0x0c)
  | 'n' => some '\n'
  | 'r' => some '\r'
  | 't' => some '\t'
  | '"' => some '"'
  | _ => none

/-- Whether the parts of a text between its backslashes start with letters of escapes. A part that
is empty means that the backslash before it is escaped, or not any more. -/
def escapesKnown : (escaped : Bool) → List (List Char) → Bool
  | _, [] => true
  | escaped, [] :: rest => escapesKnown (!escaped) rest
  | escaped, (c :: _) :: rest =>
    (escaped || (letterEscape? c).isSome || c == 'u' || c == 'U') && escapesKnown false rest

/-- The number of hexadecimal digits. -/
def hexNumber? (cs : List Char) : Option Nat :=
  cs.foldlM (fun n c => (Json.hexValue? c).map fun d => n * 16 + d) 0

/-- The character of a code point in hexadecimal digits. -/
def codePoint (digits : List Char) : Except Fault Char :=
  match hexNumber? digits, digits with
  | none, _ => .error .malformed
  | some _, [] => .error .beyond
  | some n, d :: rest =>
    if d.toLower = 'd' then
      match rest with
      | [] => .error .beyond
      | e :: _ => if '0' ≤ e ∧ e ≤ '7' then ofNumber n else .error .malformed
    else ofNumber n
where
  ofNumber (n : Nat) : Except Fault Char :=
    if n ≤ 0x10ffff then .ok (Json.unitChar n)
    else if n < 0x80000000 then .error .malformed
    else .error .codePoint

/-- Replaces code point escapes of one kind. The parts stand behind its mark; one whose mark is
escaped stays as it is. -/
def expandParts (mark : List Char) (width : Nat) (escaped : Bool) :
    (done : List Char) → List (List Char) → Except Fault (List Char)
  | done, [] => .ok done
  | done, part :: rest =>
    if escaped then expandParts mark width (endsEscaped part) (done ++ mark ++ part) rest
    else
      match codePoint (part.take width) with
      | .error e => .error e
      | .ok c => expandParts mark width false (done ++ c :: part.drop width) rest

/-- Replaces code point escapes of one kind in a text. -/
def expand (letter : Char) (width : Nat) (cs : List Char) : Except Fault (List Char) :=
  match splitAll ['\\', letter] cs with
  | [] => .ok cs
  | before :: parts => expandParts ['\\', letter] width (endsEscaped before) before parts

/-- Replaces the escapes of one letter. Marks of code points stay. -/
def unescape : List Char → Except Fault (List Char)
  | [] => .ok []
  | '\\' :: c :: cs =>
    match letterEscape? c with
    | some e => (unescape cs).map (e :: ·)
    | none =>
      if c = '\\' then (unescape cs).map ('\\' :: ·)
      else if c = 'u' || c = 'U' then (unescape cs).map fun r => '\\' :: c :: r
      else .error .malformed
  | c :: cs => (unescape cs).map (c :: ·)

/-- All escapes of a text in double quotes. -/
def readEscapes (cs : List Char) : Except Fault (List Char) := do
  if escapesKnown false ((pieces '\\' cs).drop 1) then
    unescape (← expand 'U' 8 (← expand 'u' 4 cs))
  else .error .malformed

/-- Whether nothing follows the end of a text, by its parts between quotes. In three quotes,
`quotes` counts those that came last. -/
def endsOnce (three : Bool) : (closed : Bool) → (quotes : Nat) → List (List Char) → Bool
  | _, _, [] => true
  | closed, quotes, part :: rest =>
    if part.isEmpty then
      if three then endsOnce three closed (quotes + 1) rest else endsOnce three true quotes rest
    else if endsEscaped part then endsOnce three closed quotes rest
    else if closed then false
    else if !three || quotes > 1 then endsOnce three true quotes rest
    else endsOnce three closed 0 rest

/-- The text of a literal that starts with the quote `q`. -/
def quotedText (q : Char) (cs : List Char) : Except Fault (List Char) :=
  let once := match pieces q (cs.drop 1) with
    | [] :: [] :: parts => endsOnce true false 0 parts
    | parts => endsOnce false false 0 parts
  if once then
    match if q = '"' then readEscapes cs else .ok cs with
    | .error e => .error e
    | .ok cs =>
      match cs with
      | _ :: a :: rest =>
        let twice := a = q && (rest.isEmpty || rest.head? = some a)
        .ok (withoutEnds 1 (if twice then withoutEnds 2 cs else cs))
      | _ => .ok (withoutEnds 1 cs)
  else .error .malformed

/-- Whether a text in a list is whole: it ends with the quote it starts with. -/
def isBounded (cs : List Char) : Bool :=
  cs.isEmpty || (cs.getLast? = cs.head? && !endsEscaped (withoutEnds 1 cs))

/-- Whether a text starts with three quotes and does not end with as many. -/
def isCutShort (cs : List Char) : Bool :=
  match cs, cs.reverse with
  | a :: b :: c :: _, _ :: y :: z :: _ => a == b && b == c && y != a && z != a
  | _, _ => false

end CodeAtlas.Value.Toml
