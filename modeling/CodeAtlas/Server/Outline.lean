import CodeAtlas.Value.Basic

/-!
# Outlines

A server describes a document by an outline: a forest of named ranges. Entries
come nested, or flat with the name of what contains them. An entry without a
name is passed over; an entry of the wrong shape spoils the whole answer.
-/

namespace CodeAtlas.Server

/-- A named range of a document. Lines are counted from one. -/
structure Outline where
  name : String
  kind : Int
  line : Int
  endLine : Int
  detail : Value
  /-- What contains the entry; null at the top. -/
  container : Value
  children : List Outline
  deriving Inhabited

/-- Why an entry has the wrong shape. -/
inductive EntryFault
  | name
  | noFields (kind : String)
  | number (reason : Value.NotInteger)
  deriving DecidableEq, Repr

def EntryFault.message : EntryFault → String
  | name => "name is not a string"
  | noFields kind => s!"'{kind}' object has no attribute 'get'"
  | number reason => reason.message

/-- Why an answer is no outline. -/
inductive OutlineError
  | notAList (kind : String)
  | malformed (name : Value) (fault : EntryFault)
  /-- A position that no number can hold. -/
  | unbounded
  /-- A malformed entry whose name has a number with more digits than can be written. -/
  | longNumber
  deriving DecidableEq, Repr

namespace Outline

/-- The field of a value that has to have fields, or the default. -/
def fieldOr (v : Value) (key : String) (default : Value) : Except EntryFault Value :=
  match v with
  | .record fields => .ok ((fields.lookup key).getD default)
  | v => .error (.noFields v.kindName)

def number (v : Value) : Except EntryFault Int :=
  match v.toInteger with
  | .ok n => .ok n
  | .error e => .error (.number e)

/-- The first value that is given, or else the last. -/
def firstGiven (v w : Value) : Value := if v.isGiven then v else w

/-- The range of an entry: its own, or that of its location. -/
def range (fields : List (String × Value)) : Except EntryFault Value :=
  let own := (fields.lookup "range").getD .null
  if own.isGiven then .ok own
  else do
    let location := firstGiven ((fields.lookup "location").getD .null) (.record [])
    let inner ← fieldOr location "range" .null
    .ok (firstGiven inner (.record []))

/-- The line of a position of a range. -/
def lineOf (range : Value) (key : String) (default : Value) : Except EntryFault Int := do
  let position ← fieldOr range key (.record [])
  let line ← fieldOr position "line" default
  number line

/-- An entry without its children. The end is that of the start unless it is given. -/
def entry (fields : List (String × Value)) (name container : Value) :
    Except EntryFault Outline :=
  match name with
  | .text name => do
    let range ← range fields
    let start ← lineOf range "start" (.integer 0)
    let stop ← lineOf range "end" (.integer start)
    let kind ← number ((fields.lookup "kind").getD (.integer 0))
    .ok {
      name, kind
      line := start + 1
      endLine := stop + 1
      detail := firstGiven ((fields.lookup "detail").getD .null) (.text "")
      container := firstGiven ((fields.lookup "containerName").getD .null) container
      children := [] }
  | _ => .error .name

/-- A fault of an entry as a fault of the answer, which quotes the name. -/
def blame (name : Value) : EntryFault → OutlineError
  | .number .unbounded => .unbounded
  | fault => if name.isWritable then .malformed name fault else .longNumber

mutual

/-- The outline that a value describes. -/
def ofValue (container : Value) : Value → Except OutlineError (List Outline)
  | .null => .ok []
  | .list items => ofItems container items
  | v => .error (.notAList v.kindName)

def ofItems (container : Value) : List Value → Except OutlineError (List Outline)
  | [] => .ok []
  | item :: rest =>
    match item with
    | .record fields =>
      match fields.lookup "name" with
      | none => ofItems container rest
      | some name =>
        match entry fields name container with
        | .error fault => .error (blame name fault)
        | .ok e =>
          match ofChildren (.text e.name) fields with
          | .error e => .error e
          | .ok children =>
            match ofItems container rest with
            | .error e => .error e
            | .ok more => .ok ({ e with children } :: more)
    | _ => ofItems container rest

/-- The outline of an entry's children. -/
def ofChildren (container : Value) : List (String × Value) → Except OutlineError (List Outline)
  | [] => .ok []
  | (key, v) :: rest => if key = "children" then ofValue container v else ofChildren container rest

end

end Outline

end CodeAtlas.Server
