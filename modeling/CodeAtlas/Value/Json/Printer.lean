import CodeAtlas.Value.Basic

/-!
# Writing values as JSON

Only ASCII is written: any other character, and every control character, is
escaped by the code units of UTF-16. The compact form has no blanks; the
indented form puts every item on a line of its own, two columns further in.
-/

namespace CodeAtlas.Value.Json

/-- A code unit as an escape. -/
def unitEscape (n : Nat) : List Char := '\\' :: 'u' :: Text.hex 4 n

def escapeChar (c : Char) : List Char :=
  if c = '"' then ['\\', '"']
  else if c = '\\' then ['\\', '\\']
  else if c = '\n' then ['\\', 'n']
  else if c = '\r' then ['\\', 'r']
  else if c = '\t' then ['\\', 't']
  else if c.toNat = 0x0c then ['\\', 'f']
  else if c.toNat = 0x08 then ['\\', 'b']
  else if 0x20 ≤ c.toNat ∧ c.toNat ≤ 0x7e then [c]
  else if c.toNat < 0x10000 then unitEscape c.toNat
  else
    let n := c.toNat - 0x10000
    unitEscape (0xd800 + n / 0x400) ++ unitEscape (0xdc00 + n % 0x400)

def string (cs : List Char) : List Char := '"' :: cs.flatMap escapeChar ++ ['"']

def integer (n : Int) : List Char := (toString n).toList

/-- Numbers with a fraction; the three that are not finite have names. -/
def real : Binary64 → List Char
  | .notANumber => "NaN".toList
  | .infinite negative => if negative then "-Infinity".toList else "Infinity".toList
  | x => x.text.toList

mutual

/-- The compact form. -/
def compact : Value → List Char
  | .null => "null".toList
  | .boolean b => if b then "true".toList else "false".toList
  | .integer n => integer n
  | .real x => real x
  | .text s => string s.toList
  | .list items => '[' :: compactItems items ++ [']']
  | .record fields => '\x7b' :: compactFields fields ++ ['\x7d']

def compactItems : List Value → List Char
  | [] => []
  | v :: vs => compact v ++ compactMoreItems vs

/-- The items after the first, each behind a comma. -/
def compactMoreItems : List Value → List Char
  | [] => []
  | v :: vs => ',' :: compact v ++ compactMoreItems vs

def compactFields : List (String × Value) → List Char
  | [] => []
  | (k, v) :: fs => string k.toList ++ ':' :: compact v ++ compactMoreFields fs

/-- The fields after the first, each behind a comma. -/
def compactMoreFields : List (String × Value) → List Char
  | [] => []
  | (k, v) :: fs => ',' :: string k.toList ++ ':' :: compact v ++ compactMoreFields fs

end

/-- A new line, `depth` steps in. -/
def newLine (depth : Nat) : List Char := '\n' :: List.replicate (2 * depth) ' '

mutual

/-- The indented form, at a depth. -/
def indented (depth : Nat) : Value → List Char
  | .null => "null".toList
  | .boolean b => if b then "true".toList else "false".toList
  | .integer n => integer n
  | .real x => real x
  | .text s => string s.toList
  | .list [] => ['[', ']']
  | .list (v :: vs) =>
    '[' :: newLine (depth + 1) ++ indented (depth + 1) v ++ indentedItems (depth + 1) vs ++
      newLine depth ++ [']']
  | .record [] => ['\x7b', '\x7d']
  | .record ((k, v) :: fs) =>
    '\x7b' :: newLine (depth + 1) ++ string k.toList ++ [':', ' '] ++ indented (depth + 1) v ++
      indentedFields (depth + 1) fs ++ newLine depth ++ ['\x7d']

/-- The items after the first. -/
def indentedItems (depth : Nat) : List Value → List Char
  | [] => []
  | v :: vs => ',' :: newLine depth ++ indented depth v ++ indentedItems depth vs

/-- The fields after the first. -/
def indentedFields (depth : Nat) : List (String × Value) → List Char
  | [] => []
  | (k, v) :: fs =>
    ',' :: newLine depth ++ string k.toList ++ [':', ' '] ++ indented depth v ++
      indentedFields depth fs

end

end CodeAtlas.Value.Json
