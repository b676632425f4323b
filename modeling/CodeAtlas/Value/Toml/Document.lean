import CodeAtlas.Value.Toml.Literal

/-!
# Settings documents

A document is a table. Its statements are assignments and headers: a header opens
a table inside the document, or adds a table to a list, and the assignments up to
the next header belong to it. A table may be opened once, and a table that has
only been passed through may still be opened.
-/

namespace CodeAtlas.Value.Toml

open CodeAtlas.Text

def isNameChar (c : Char) : Bool := c.isAlphanum || c == '_' || c == '-'

/-- Whether a quotation in a header is complete. -/
def isClosed (cs : List Char) : Bool := cs.length != 1 && cs.head? = cs.getLast?

/-- The names of a header, from its parts between dots. `quotation` is a quotation that is still
open and goes on behind the dot. -/
def headerNames : (quotation : Option (List Char)) → List (List Char) → Except Fault (List String)
  | none, [] => .ok []
  | some _, [] => .error .malformed
  | none, part :: rest =>
    let name := trim part
    if (name.head?.map Layout.isQuote).getD false then
      if isClosed name then (headerNames none rest).map (String.ofList (withoutEnds 1 name) :: ·)
      else headerNames (some name) rest
    else if !name.isEmpty && name.all isNameChar then
      (headerNames none rest).map (String.ofList name :: ·)
    else .error .malformed
  | some before, part :: rest =>
    let quotation := before ++ '.' :: part
    let name := trim quotation
    if isClosed name then (headerNames none rest).map (String.ofList (withoutEnds 1 name) :: ·)
    else headerNames (some quotation) rest

/-- A header: the names that it leads through, and whether it adds to a list. -/
structure Header where
  names : List String
  addsToList : Bool

/-- Reads the header on a line that starts with a bracket. -/
def header (line : List Char) : Except Fault Header :=
  let addsToList := (line.drop 1).head? = some '['
  let closing := if addsToList then [']', ']'] else [']']
  let body := line.drop closing.length
  let cuts := cutsNeeded closing false (quoteParts body)
  let parts := splitUpTo closing cuts body
  if line.length = 1 || parts.length ≤ cuts || !(trim (parts.getLast?.getD [])).isEmpty then
    .error .malformed
  else
    (headerNames none (pieces '.' (joinPieces closing parts.dropLast))).map
      fun names => ⟨names, addsToList⟩

/-- A step from a value to one inside it. -/
inductive Step
  | field (key : String)
  /-- The last item of a list. -/
  | last
  deriving DecidableEq, Repr

/-- Changes the last item of a list. -/
def updateLast (f : Value → Except Fault Value) (items : List Value) : Except Fault (List Value) :=
  match items.getLast? with
  | none => .error .beyond
  | some v => (f v).map fun v => items.dropLast ++ [v]

/-- Changes the value at the end of some steps. -/
def updateFrom (f : Value → Except Fault Value) : List Step → Value → Except Fault Value
  | [], v => f v
  | .field key :: steps, .record fields =>
    (updateFrom f steps ((fields.lookup key).getD (.record []))).map fun v =>
      .record (Table.putPair key v fields)
  | .last :: steps, .list items => (updateLast (updateFrom f steps) items).map .list
  | _ :: _, _ => .error .mismatch

/-- A place in a document: the document, with the steps to the place and the names of tables that
have only been passed through. -/
structure Place where
  value : Value
  steps : List Step
  passed : List String

/-- What a header makes where nothing is yet. -/
def fresh (addsToList : Bool) (rest : List String) : Value :=
  if addsToList && rest.isEmpty then .list [.record []] else .record []

/-- What a header does to a value that is there already: the value, and the names passed through. -/
def revisit (addsToList : Bool) (passed : List String) (name : String) (rest : List String)
    (v : Value) : Except Fault (Value × List String) :=
  if !rest.isEmpty then .ok (v, passed)
  else if passed.contains name then
    if addsToList then .error .malformed else .ok (v, passed.erase name)
  else if addsToList then
    match v with
    | .list items => .ok (.list (items ++ [.record []]), passed)
    | _ => .error .mismatch
  else .error .malformed

/-- Goes on inside a value. A header that adds to a list goes to the last item of every list on its
way. -/
def enter (addsToList : Bool) (next : Value → Except Fault Place) (v : Value) :
    Except Fault Place :=
  match addsToList, v with
  | true, .list items =>
    match items.getLast? with
    | none => .error .beyond
    | some item => (next item).map fun p =>
      { p with value := .list (items.dropLast ++ [p.value]), steps := .last :: p.steps }
  | true, .text s => if s = "" then .error .beyond else next v
  | true, .record _ | false, _ => next v
  | true, _ => .error .mismatch

/-- Follows the names of a header from a value on. -/
def follow (addsToList : Bool) (passed : List String) :
    List String → Value → Except Fault Place
  | [], v => .ok ⟨v, [], passed⟩
  | name :: rest, v =>
    if name = "" then .error .malformed
    else
      match v with
      | .record fields =>
        let found := match fields.lookup name with
          | some inside => revisit addsToList passed name rest inside
          | none =>
            .ok (fresh addsToList rest, if rest.isEmpty then passed else passed ++ [name])
        match found with
        | .error e => .error e
        | .ok (inside, passed) =>
          (enter addsToList (follow addsToList passed rest) inside).map fun p =>
            { p with
              value := .record (Table.putPair name p.value fields)
              steps := .field name :: p.steps }
      | .list items =>
        match items.getLast? with
        | none => .error .beyond
        | some (.record fields) =>
          let inside := (fields.lookup name).getD (fresh addsToList rest)
          (enter addsToList (follow addsToList passed rest) inside).map fun p =>
            { p with
              value := .list (items.dropLast ++ [.record (Table.putPair name p.value fields)])
              steps := .last :: .field name :: p.steps }
        | some _ => .error .mismatch
      | .text s => if s = "" then .error .beyond else .error .mismatch
      | _ => .error .mismatch

/-- A document that is being read. -/
structure Reading where
  place : Place := ⟨.record [], [], []⟩
  pending : Option Pending := none

/-- How many lists, tables and assignments may be nested. -/
def nestingLimit : Nat := 980

namespace Reading

/-- Changes the table at the current place. -/
def update (r : Reading) (f : Value → Except Fault Value) : Except Fault Reading :=
  (updateFrom f r.place.steps r.place.value).map fun value =>
    { r with place := { r.place with value } }

/-- The value at the current place. -/
def valueFrom : List Step → Value → Value
  | .field key :: steps, .record fields => valueFrom steps ((fields.lookup key).getD .null)
  | .last :: steps, .list items => valueFrom steps (items.getLast?.getD .null)
  | _, v => v

/-- Stores a value under a name at the current place. -/
def store (r : Reading) (name : String) (v : Value) : Except Fault Reading :=
  r.update fun table =>
    match table with
    | .record fields => .ok (.record (Table.putPair name v fields))
    | _ => .error .mismatch

/-- Whether a line ends a text that goes on: with its bracket, or with three of its quotes. -/
def endsPending (text line : List Char) : Except Fault Bool :=
  match text.head? with
  | some '[' =>
    match line.getLast? with
    | none => .error .beyond
    | some c => .ok (c == ']')
  | some q => .ok (2 < line.length && (line.drop (line.length - 3)).all (· == q))
  | none => .ok false

/-- Takes in a line of a text that goes on. -/
def continueText (r : Reading) (p : Pending) (line : List Char) : Except Fault Reading :=
  let text := p.text ++ line
  match endsPending text line with
  | .error e => .error e
  | .ok false => .ok { r with pending := some (.atLineEnd p.key text) }
  | .ok true =>
    match literal nestingLimit text with
    | .error e => .error e
    | .ok (_, v) => { r with pending := none }.store p.key v

/-- Takes in a header. -/
def openTable (r : Reading) (line : List Char) : Except Fault Reading := do
  let h ← header line
  let place ← follow h.addsToList r.place.passed h.names r.place.value
  return { r with place }

/-- Takes in an assignment. -/
def takeAssignment (r : Reading) (line : List Char) : Except Fault Reading :=
  match assign nestingLimit line (valueFrom r.place.steps r.place.value) with
  | .error e => .error e
  | .ok (table, pending) => { r with pending }.update fun _ => .ok table

/-- Takes in a line. -/
def step (r : Reading) (line : List Char) : Except Fault Reading :=
  match r.pending with
  | some p =>
    let line := if p.joined || !p.text.contains '\n' then trim line else line
    if line.isEmpty && p.joined then .ok r else r.continueText p line
  | none =>
    let line := trim line
    match line.head? with
    | none => .ok r
    | some c =>
      if c = '[' then r.openTable line
      else if c = '{' then
        if line.getLast? = some '}' then r.update (inlineTable nestingLimit line)
        else .error .malformed
      else if line.contains '=' then r.takeAssignment line
      else .ok r

end Reading

/-- Reads a settings document. -/
def parse (text : List Char) : Except Fault Value := do
  let r ← (← lines text).foldlM Reading.step {}
  return r.place.value

end CodeAtlas.Value.Toml
