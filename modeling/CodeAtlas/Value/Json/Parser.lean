import CodeAtlas.Table
import CodeAtlas.Value.Basic

/-!
# Reading values from JSON

The reader takes one value and tells what follows it; a text is read when only
blanks follow. Besides the standard grammar the names of the three numbers that
are not finite are read. Integers may not have too many digits, and brackets may
not be nested too deeply. A problem is located by the number of characters that
were left when it was met.
-/

namespace CodeAtlas.Value.Json

inductive Problem
  | value
  | propertyName
  | colon
  | comma
  | unterminated
  | control
  | escape
  | unicodeEscape
  | extraData
  | byteOrderMark
  /-- An integer with more digits than one may have. -/
  | longNumber
  /-- Brackets within brackets beyond the limit. -/
  | deepNesting
  deriving DecidableEq, Repr

/-- A problem and how many characters were left there. -/
structure Fault where
  problem : Problem
  left : Nat
  deriving DecidableEq, Repr

def Problem.message : Problem → String
  | .value => "Expecting value"
  | .propertyName => "Expecting property name enclosed in double quotes"
  | .colon => "Expecting ':' delimiter"
  | .comma => "Expecting ',' delimiter"
  | .unterminated => "Unterminated string starting at"
  | .control => "Invalid control character at"
  | .escape => "Invalid \\escape"
  | .unicodeEscape => "Invalid \\uXXXX escape"
  | .extraData => "Extra data"
  | .byteOrderMark => "Unexpected UTF-8 BOM (decode using utf-8-sig)"
  | .longNumber => "Too many digits"
  | .deepNesting => "Too deeply nested"

/-- The problem with its place in the text: line, column and offset. -/
def Fault.message (text : List Char) (f : Fault) : String :=
  let offset := text.length - f.left
  let before := text.take offset
  let line := before.count '\n' + 1
  let column := (before.reverse.takeWhile (· ≠ '\n')).length + 1
  s!"{f.problem.message}: line {line} column {column} (char {offset})"

def isBlank (c : Char) : Bool := c == ' ' || c == '\t' || c == '\n' || c == '\r'

def skipBlanks (cs : List Char) : List Char := cs.dropWhile isBlank

def hexValue? (c : Char) : Option Nat :=
  if '0' ≤ c ∧ c ≤ '9' then some (c.toNat - '0'.toNat)
  else if 'a' ≤ c ∧ c ≤ 'f' then some (c.toNat - 'a'.toNat + 10)
  else if 'A' ≤ c ∧ c ≤ 'F' then some (c.toNat - 'A'.toNat + 10)
  else none

/-- The code unit of four hexadecimal digits. -/
def unit? (a b c d : Char) : Option Nat := do
  let a ← hexValue? a
  let b ← hexValue? b
  let c ← hexValue? c
  let d ← hexValue? d
  return ((a * 16 + b) * 16 + c) * 16 + d

/-- The character behind a backslash. -/
def simpleEscape? : Char → Option Char
  | '"' => some '"'
  | '\\' => some '\\'
  | '/' => some '/'
  | 'b' => some (Char.ofNat 0x08)
  | 'f' => some (Char.ofNat 0x0c)
  | 'n' => some '\n'
  | 'r' => some '\r'
  | 't' => some '\t'
  | _ => none

/-- A code unit that is half of a pair and stands alone reads as U+FFFD. -/
def unitChar (n : Nat) : Char :=
  if 0xd800 ≤ n ∧ n ≤ 0xdfff then Char.ofNat 0xfffd else Char.ofNat n

/-- The character of a pair of code units, none when they make no pair. -/
def pairChar? (high low : Nat) : Option Char :=
  if 0xd800 ≤ high ∧ high ≤ 0xdbff ∧ 0xdc00 ≤ low ∧ low ≤ 0xdfff then
    some (Char.ofNat (0x10000 + (high - 0xd800) * 0x400 + (low - 0xdc00)))
  else none

/-- What stands behind the letter of a code unit escape. -/
inductive UnitEscape
  /-- A character, and how many characters it took. -/
  | char (c : Char) (taken : Nat)
  /-- A malformed escape, its letter so many characters further on. -/
  | bad (ahead : Nat)

def unitEscape? : List Char → UnitEscape
  | a :: b :: c :: d :: e :: rest =>
    match unit? a b c d with
    | none => .bad 0
    | some high =>
      if 0xd800 ≤ high ∧ high ≤ 0xdbff then
        match e :: rest with
        | '\\' :: 'u' :: a' :: b' :: c' :: d' :: _ :: _ =>
          match unit? a' b' c' d' with
          | none => .bad 6
          | some low =>
            match pairChar? high low with
            | some ch => .char ch 10
            | none => .char (unitChar high) 4
        | _ => .char (unitChar high) 4
      else .char (unitChar high) 4
  | _ => .bad 0

/-- The rest of a string behind its opening quote. `opened` is what was left at that quote, `skip`
characters are already read as part of an escape, `acc` is the text so far, last character first. -/
def stringRest (opened : Nat) : (skip : Nat) → List Char → List Char →
    Except Fault (List Char × List Char)
  | _, [], _ => .error ⟨.unterminated, opened⟩
  | skip + 1, _ :: cs, acc => stringRest opened skip cs acc
  | 0, '"' :: cs, acc => .ok (acc.reverse, cs)
  | 0, '\\' :: cs, acc =>
    match cs with
    | [] => .error ⟨.unterminated, opened⟩
    | 'u' :: rest =>
      match unitEscape? rest with
      | .char ch taken => stringRest opened (taken + 1) cs (ch :: acc)
      | .bad ahead => .error ⟨.unicodeEscape, cs.length - ahead⟩
    | c :: _ =>
      match simpleEscape? c with
      | some ch => stringRest opened 1 cs (ch :: acc)
      | none => .error ⟨.escape, cs.length + 1⟩
  | 0, c :: cs, acc =>
    if c.toNat ≤ 0x1f then .error ⟨.control, cs.length + 1⟩ else stringRest opened 0 cs (c :: acc)

def isDigit (c : Char) : Bool := '0' ≤ c && c ≤ '9'

def digitsValue (ds : List Char) : Nat := ds.foldl (fun n c => n * 10 + (c.toNat - '0'.toNat)) 0

/-- Digits behind a point, when there is at least one. -/
def fractionDigits : List Char → List Char × List Char
  | '.' :: c :: cs =>
    if isDigit c then ((c :: cs).takeWhile isDigit, (c :: cs).dropWhile isDigit)
    else ([], '.' :: c :: cs)
  | cs => ([], cs)

/-- An exponent, when it has at least one digit. -/
def exponent? : List Char → Option (Int × List Char)
  | e :: cs =>
    if e = 'e' ∨ e = 'E' then
      let (negative, cs) := match cs with
        | '-' :: r => (true, r)
        | '+' :: r => (false, r)
        | r => (false, r)
      let ds := cs.takeWhile isDigit
      if ds.isEmpty then none
      else
        let n : Int := (digitsValue ds : Nat)
        some (if negative then -n else n, cs.dropWhile isDigit)
    else none
  | [] => none

/-- A number behind its sign: an integer, which may not be too long, or a number with a fraction or
an exponent. -/
def unsigned (negative : Bool) (cs : List Char) : Except Problem (Value × List Char) :=
  let whole := match cs with
    | '0' :: r => some (['0'], r)
    | c :: _ => if isDigit c then some (cs.takeWhile isDigit, cs.dropWhile isDigit) else none
    | [] => none
  match whole with
  | none => .error .value
  | some (ds, rest) =>
    let (fs, rest) := fractionDigits rest
    match exponent? rest with
    | some (e, rest) =>
      .ok (.real (.ofDecimal negative (digitsValue (ds ++ fs)) (e - fs.length)), rest)
    | none =>
      if !fs.isEmpty then
        .ok (.real (.ofDecimal negative (digitsValue (ds ++ fs)) (-fs.length)), rest)
      else if Text.digitLimit < ds.length then .error .longNumber
      else
        let n : Int := (digitsValue ds : Nat)
        .ok (.integer (if negative then -n else n), rest)

def number : List Char → Except Problem (Value × List Char)
  | '-' :: cs => unsigned true cs
  | cs => unsigned false cs

/-- The names of values. -/
def name? : List Char → Option (Value × List Char)
  | 'n' :: 'u' :: 'l' :: 'l' :: cs => some (.null, cs)
  | 't' :: 'r' :: 'u' :: 'e' :: cs => some (.boolean true, cs)
  | 'f' :: 'a' :: 'l' :: 's' :: 'e' :: cs => some (.boolean false, cs)
  | 'N' :: 'a' :: 'N' :: cs => some (.real .notANumber, cs)
  | 'I' :: 'n' :: 'f' :: 'i' :: 'n' :: 'i' :: 't' :: 'y' :: cs => some (.real (.infinite false), cs)
  | '-' :: 'I' :: 'n' :: 'f' :: 'i' :: 'n' :: 'i' :: 't' :: 'y' :: cs =>
    some (.real (.infinite true), cs)
  | _ => none

/-- A name or a number. -/
def scalar (cs : List Char) : Except Fault (Value × List Char) :=
  match name? cs with
  | some r => .ok r
  | none =>
    match number cs with
    | .ok r => .ok r
    | .error problem => .error ⟨problem, cs.length⟩

mutual

/-- One value from the front of the text, with at most `levels` brackets around anything in it.
Every bracket and every item takes fuel; twice the length of the text is enough. -/
def value : (fuel levels : Nat) → List Char → Except Fault (Value × List Char)
  | 0, _, cs => .error ⟨.value, cs.length⟩
  | fuel + 1, levels, cs =>
    match cs with
    | '"' :: rest =>
      match stringRest cs.length 0 rest [] with
      | .ok (s, rest) => .ok (.text (String.ofList s), rest)
      | .error e => .error e
    | '[' :: rest =>
      match levels, skipBlanks rest with
      | 0, _ => .error ⟨.deepNesting, cs.length⟩
      | _ + 1, ']' :: rest => .ok (.list [], rest)
      | levels + 1, rest => items fuel levels rest []
    | '\x7b' :: rest =>
      match levels, skipBlanks rest with
      | 0, _ => .error ⟨.deepNesting, cs.length⟩
      | _ + 1, '\x7d' :: rest => .ok (.record [], rest)
      | levels + 1, rest => members fuel levels rest []
    | cs => scalar cs

/-- The items of a list up to its closing bracket; `acc` holds those before, last first. -/
def items : (fuel levels : Nat) → List Char → List Value → Except Fault (Value × List Char)
  | 0, _, cs, _ => .error ⟨.value, cs.length⟩
  | fuel + 1, levels, cs, acc =>
    match value fuel levels cs with
    | .error e => .error e
    | .ok (v, rest) =>
      match skipBlanks rest with
      | ']' :: rest => .ok (.list (v :: acc).reverse, rest)
      | ',' :: rest => items fuel levels (skipBlanks rest) (v :: acc)
      | rest => .error ⟨.comma, rest.length⟩

/-- The fields of a record up to its closing brace; `acc` holds those before. -/
def members : (fuel levels : Nat) → List Char → List (String × Value) →
    Except Fault (Value × List Char)
  | 0, _, cs, _ => .error ⟨.value, cs.length⟩
  | fuel + 1, levels, cs, acc =>
    match cs with
    | '"' :: rest =>
      match stringRest cs.length 0 rest [] with
      | .error e => .error e
      | .ok (key, rest) =>
        match skipBlanks rest with
        | ':' :: rest =>
          match value fuel levels (skipBlanks rest) with
          | .error e => .error e
          | .ok (v, rest) =>
            let fields := Table.putPair (String.ofList key) v acc
            match skipBlanks rest with
            | '\x7d' :: rest => .ok (.record fields, rest)
            | ',' :: rest => members fuel levels (skipBlanks rest) fields
            | rest => .error ⟨.comma, rest.length⟩
        | rest => .error ⟨.colon, rest.length⟩
    | cs => .error ⟨.propertyName, cs.length⟩

end

/-- Reads a text that holds one value, with at most so many brackets around anything in it. -/
def parseWithin (levels : Nat) (cs : List Char) : Except Fault Value :=
  match cs with
  | c :: _ =>
    if c.toNat = 0xfeff then .error ⟨.byteOrderMark, cs.length⟩ else whole cs
  | [] => whole cs
where
  whole (cs : List Char) : Except Fault Value :=
    match value (2 * cs.length + 2) levels (skipBlanks cs) with
    | .error e => .error e
    | .ok (v, rest) =>
      match skipBlanks rest with
      | [] => .ok v
      | rest => .error ⟨.extraData, rest.length⟩

/-- How many brackets may stand around something in a message. -/
def nestingLimit : Nat := 980

/-- Reads a text that holds one value. -/
def parse (cs : List Char) : Except Fault Value := parseWithin nestingLimit cs

end CodeAtlas.Value.Json
