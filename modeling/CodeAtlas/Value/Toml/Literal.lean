import CodeAtlas.Table
import CodeAtlas.Value.Toml.Number
import CodeAtlas.Value.Toml.Quotation

/-!
# Literals and assignments

The value of an assignment is a text, a number, a truth value, a date, a list or
a table on one line. Lists and tables are cut at commas first, and parts that
turn out to be incomplete are put together again. An assignment may lead to a
table inside by a key with dots, and the tables on the way are made if they are
not there.
-/

namespace CodeAtlas.Value.Toml

open CodeAtlas.Text

/-- The kind of a literal. All items of a list have the same. -/
inductive Kind
  | boolean
  | text
  | list
  | table
  | time
  | date
  | integer
  | real
  deriving DecidableEq, Repr

/-- Whether the first item of a list is a text. -/
def isTextList (cs : List Char) : Bool :=
  ((trim (withoutEnds 1 cs)).head?.map Layout.isQuote).getD false

/-- Puts the parts of texts together that were cut at their commas. `grown` says that the part
before has been put together already; the last part is taken as it is. -/
def joinTexts (part : List Char) (grown : Bool) : List (List Char) → Except Fault (List (List Char))
  | [] => if grown && !isWhole part then .error .beyond else .ok [part]
  | next :: rest =>
    if isWhole part then (joinTexts next false rest).map (part :: ·)
    else joinTexts (part ++ ',' :: next) true rest
where
  isWhole (part : List Char) : Bool := isBounded (trim part) && !isCutShort (trim part)

/-- Where in a list of tables the text is. -/
inductive GroupState
  /-- In a table, of which this much has come, last character first. -/
  | inside (group : List Char)
  /-- Right behind a table. -/
  | behind
  /-- Before the next table. -/
  | between

/-- The tables of a list. Braces in quotes do not count. -/
def braceGroups : GroupState → (depth : Nat) → (quoted : Bool) → List Char → List (List Char)
  | _, _, _, [] => []
  | .behind, depth, quoted, _ :: cs => braceGroups .between depth quoted cs
  | .between, depth, quoted, c :: cs =>
    braceGroups (if c = '{' then .inside [c] else .between) depth quoted cs
  | .inside group, depth, quoted, c :: cs =>
    let escaped := (group.takeWhile (· == '\\')).length % 2 == 1
    let quoted := if Layout.isQuote c then !quoted || escaped else quoted
    let depth := if !quoted && c = '{' then depth + 1 else depth
    if quoted || c ≠ '}' then braceGroups (.inside (c :: group)) depth quoted cs
    else if 1 < depth then braceGroups (.inside (c :: group)) (depth - 1) quoted cs
    else (c :: group).reverse :: braceGroups .behind depth quoted cs

/-- The parts between commas outside of brackets; quotes do not count. `depth` brackets are open,
`part` has come since the last comma, last character first. -/
def bracketParts (depth : Int) (part : List Char) : List Char → List (List Char)
  | [] => [part.reverse]
  | c :: cs =>
    if c = '[' then bracketParts (depth + 1) (c :: part) cs
    else if c = ']' then bracketParts (depth - 1) (c :: part) cs
    else if c = ',' && depth = 0 then part.reverse :: bracketParts depth [] cs
    else bracketParts depth (c :: part) cs

/-- The items of a list as texts. -/
def listParts (cs : List Char) : Except Fault (List (List Char)) :=
  let body := withoutEnds 1 cs
  if body.contains '[' && (trim (body.takeWhile (· != '['))).isEmpty then
    .ok (bracketParts 0 [] body)
  else if (trim body).head? = some '{' then
    .ok (braceGroups (.inside (body.take 1)) (if body.head? = some '{' then 1 else 0) false
      (body.drop 1))
  else
    match pieces ',' body with
    | first :: rest => if isTextList cs then joinTexts first false rest else .ok (first :: rest)
    | [] => .ok []

/-- Whether a value of a table is complete, so that the next comma ends it. -/
def isComplete (value : List Char) : Bool :=
  match value.head?, value.getLast? with
  | some a, some z =>
    (Layout.isQuote a && a == z) || a.isDigit || a == '-' || value == "true".toList ||
      value == "false".toList || (a == '[' && z == ']') || (a == '{' && z == '}')
  | _, _ => false

/-- The assignments of a table. A part whose value is not complete goes on behind the comma. -/
def tableParts (part : List Char) : List (List Char) → Except Fault (List (List Char))
  | [] =>
    match cutAt? ['='] part with
    | none => .error .malformed
    | some (_, value) =>
      if (trim value).isEmpty then .error .beyond
      else if isComplete (trim value) then .ok [part]
      else .error .malformed
  | next :: rest =>
    match cutAt? ['='] part with
    | none => .error .malformed
    | some (_, value) =>
      if (trim value).isEmpty then .error .beyond
      else if isComplete (trim value) then (tableParts next rest).map (part :: ·)
      else tableParts (part ++ ',' :: next) rest

/-- The assignments between the braces of a table. -/
def assignmentParts (cs : List Char) : Except Fault (List (List Char)) :=
  match pieces ',' (withoutEnds 1 cs) with
  | [] => .ok []
  | first :: rest =>
    if rest.isEmpty && (trim first).isEmpty then .ok [] else tableParts first rest

/-- Whether a text behind an equals sign cannot be a value, so that the sign belongs to the key. -/
def isNoValue (cs : List Char) : Bool :=
  match cs with
  | [] => false
  | c :: _ =>
    !(c == ' ' || c == '\t' || Layout.isQuote c || c == '[' || c == '{') &&
    trim cs != "true".toList && trim cs != "false".toList &&
    (real? cs).isNone && (dateYear? cs).isNone && !startsTime cs

/-- Cuts an assignment into its key and its value. The first `cuts` equals signs are used, or more
when what follows them cannot be a value. -/
def cutAssignment (line : List Char) : (tries cuts : Nat) → Except Fault (List Char × List Char)
  | 0, _ => .error .malformed
  | tries + 1, cuts =>
    let parts := splitUpTo ['='] cuts line
    let value := parts.getLast?.getD []
    if isNoValue value then
      if parts.length ≤ cuts then .error .malformed else cutAssignment line tries (cuts + 1)
    else .ok (trim (joinPieces ['='] parts.dropLast), trim value)

/-- The parts of a key with dots. In quotes a dot does not count. -/
def keyParts (key : List Char) : List (List Char) :=
  if key.any Layout.isQuote then go false (quoteParts key) else pieces '.' key
where
  go : (inside : Bool) → List (List Char) → List (List Char)
  | _, [] => []
  | true, part :: rest => part :: go false rest
  | false, part :: rest => (pieces '.' part).map trim ++ go true rest

/-- Without the empty parts at the end. -/
def dropEmptyEnd (parts : List (List Char)) : List (List Char) :=
  (parts.reverse.dropWhile List.isEmpty).reverse

/-- The tables that a key leads through, and the name in the last one. -/
def keyPath (key : List Char) : Except Fault (List String × String) :=
  if key.contains '.' then
    match (dropEmptyEnd (keyParts key)).reverse with
    | [] => .error .beyond
    | name :: before =>
      .ok (((before.reverse.filter fun p => !p.isEmpty).map String.ofList),
        String.ofList (trim name))
  else
    match key.head? with
    | none => .error .beyond
    | some c =>
      if Layout.isQuote c && key.getLast? = some c then
        (unescape (withoutEnds 1 key)).map fun name => ([], String.ofList name)
      else .ok ([], String.ofList key)

/-- The table at the end of a path, which may not be there yet. -/
def tableAt : List String → Value → Except Fault Value
  | [], v => .ok v
  | key :: path, .record fields => tableAt path ((fields.lookup key).getD (.record []))
  | _ :: _, _ => .error .mismatch

/-- Changes the table at the end of a path, and makes the tables on the way. -/
def updateAt (f : List (String × Value) → List (String × Value)) : List String → Value → Value
  | [], .record fields => .record (f fields)
  | key :: path, .record fields =>
    .record (Table.putPair key (updateAt f path ((fields.lookup key).getD (.record []))) fields)
  | _, v => v

/-- Whether a name is still free in a table. -/
def isFree (name : String) : Value → Bool
  | .record fields => (fields.lookup name).isNone
  | _ => false

/-- The last part of an unclosed list of texts that starts with a quote. -/
def lastQuoted (part : List Char) : List (List Char) → Except Fault (List Char)
  | [] => .ok part
  | before :: rest =>
    match part.head? with
    | none => .error .beyond
    | some c => if Layout.isQuote c then .ok part else lastQuoted (before ++ ',' :: part) rest

/-- Whether a text starts with three quotes and does not end with three more. -/
def opensText (cs : List Char) : Except Fault Bool :=
  match cs with
  | [] => .ok false
  | q :: rest =>
    if !Layout.isQuote q then .ok false
    else
      match rest with
      | [] => .error .beyond
      | a :: rest =>
        if a ≠ q then .ok false
        else
          match rest with
          | [] => .error .beyond
          | b :: _ =>
            let closed := 5 < cs.length && (cs.drop (cs.length - 3)).all (· == q)
            .ok (b = q && !closed)

/-- Whether a value goes on in the next line: it is a text in three quotes that is still open, or a
list that ends with one. -/
def goesOn (value : List Char) : Except Fault Bool :=
  if value.length < 3 then .ok false
  else if value.head? = some '[' && value.getLast? ≠ some ']' && isTextList value then
    match (pieces ',' (trim (value.drop 1))).reverse with
    | [] => .ok false
    | last :: before =>
      match lastQuoted last before with
      | .error e => .error e
      | .ok part => opensText part
  else opensText value

/-- A text that goes on in the next line. -/
structure Pending where
  key : String
  text : List Char
  /-- Whether the line end is dropped, with the blanks that follow it. -/
  joined : Bool

/-- What has come of a text, at a line end. A backslash there joins the next line. -/
def Pending.atLineEnd (key : String) (text : List Char) : Pending :=
  if endsEscaped text then ⟨key, text.dropLast, true⟩ else ⟨key, text ++ ['\n'], false⟩

mutual

/-- The value of a literal. Every list, table and assignment takes one of the `levels`. -/
def literal : (levels : Nat) → List Char → Except Fault (Kind × Value)
  | 0, _ => .error .deepNesting
  | levels + 1, cs =>
    match cs with
    | [] => .error .malformed
    | c :: _ =>
      if cs = "true".toList then .ok (.boolean, .boolean true)
      else if cs = "false".toList then .ok (.boolean, .boolean false)
      else if Layout.isQuote c then
        (quotedText c cs).map fun s => (.text, .text (String.ofList s))
      else if c = '[' then (array levels cs).map fun items => (.list, .list items)
      else if c = '{' then (inlineTable levels cs (.record [])).map fun v => (.table, v)
      else if startsTime cs then
        match timeHour? cs with
        | some hour => .ok (.time, .real (.ofDecimal false (hour.toNat + 1) 0))
        | none => .error .malformed
      else
        match dateYear? cs with
        | some year => .ok (.date, .real (.ofDecimal false year.toNat 0))
        | none =>
          match number? cs with
          | some (.integer n) => .ok (.integer, .integer n)
          | some v => .ok (.real, v)
          | none => .error .malformed

/-- The items of a list. Parts that are blank do not count. -/
def array : (levels : Nat) → List Char → Except Fault (List Value)
  | 0, _ => .error .deepNesting
  | levels + 1, cs =>
    match listParts cs with
    | .error e => .error e
    | .ok parts =>
      let step (acc : Option Kind × List Value) (part : List Char) :
          Except Fault (Option Kind × List Value) :=
        if (trim part).isEmpty then .ok acc
        else
          match literal levels (trim part), acc.1 with
          | .error e, _ => .error e
          | .ok (kind, v), none => .ok (some kind, v :: acc.2)
          | .ok (kind, v), some first =>
            if kind = first then .ok (some first, v :: acc.2) else .error .malformed
      (parts.foldlM step (none, [])).map fun acc => acc.2.reverse

/-- Adds the assignments between braces to a table, up to one that goes on in the next line. -/
def inlineTable : (levels : Nat) → List Char → Value → Except Fault Value
  | 0, _, _ => .error .deepNesting
  | levels + 1, cs, table =>
    match assignmentParts cs with
    | .error e => .error e
    | .ok parts =>
      let step (acc : Value × Bool) (part : List Char) : Except Fault (Value × Bool) :=
        if acc.2 then .ok acc
        else
          match assign levels part acc.1 with
          | .error e => .error e
          | .ok (v, pending) => .ok (v, pending.isSome)
      (parts.foldlM step (table, false)).map Prod.fst

/-- Makes an assignment in a table: the table after it, and the text that goes on in the next line.
The value is read after the tables on the way have been found and before the name is looked at. -/
def assign : (levels : Nat) → List Char → Value → Except Fault (Value × Option Pending)
  | 0, _, _ => .error .deepNesting
  | levels + 1, line, table =>
    match cutAssignment line (line.length + 1)
        (cutsNeeded ['='] false (quoteParts line)) with
    | .error e => .error e
    | .ok (key, value) =>
      match keyPath key with
      | .error e => .error e
      | .ok (path, name) =>
        match tableAt path table with
        | .error e => .error e
        | .ok last =>
          match goesOn value with
          | .error e => .error e
          | .ok true =>
            if !isFree name last then .error .malformed
            else if name = "" then .error .nameless
            else .ok (updateAt id path table, some (.atLineEnd name value))
          | .ok false =>
            match literal levels value with
            | .error e => .error e
            | .ok (_, v) =>
              if isFree name last then .ok (updateAt (Table.putPair name v) path table, none)
              else .error .malformed

end

end CodeAtlas.Value.Toml
