import CodeAtlas.Language
import CodeAtlas.Table
import CodeAtlas.Text.Utf8
import CodeAtlas.Value.Toml.Document

/-!
# Settings

A settings file says which language server to use for a language. What it leaves
out is taken from the defaults. The file is a document in a language of its own,
and any reader of that language will do. A file that the reader calls malformed
counts as empty; one that is no text, cannot be read to its end for another
reason, or has something else in the place of its servers, is an error.
-/

namespace CodeAtlas

/-- How to launch the language server of a language. -/
structure ServerConfig where
  language : String
  command : Value
  args : List Value := []
  enabled : Bool := true
  deriving DecidableEq, Repr

/-- The command line of a server. -/
def ServerConfig.argv (c : ServerConfig) : List Value := c.command :: c.args

namespace Settings

/-- Why a reader gives no document. -/
inductive Refusal (ε : Type)
  | malformed
  /-- For a reason that only this reader has. -/
  | failed (e : ε)
  deriving DecidableEq, Repr

/-- A reader of documents. -/
abbrev Reader (ε : Type) := List Char → Except (Refusal ε) Value

inductive Error (ε : Type)
  /-- The file is no text. -/
  | notText
  /-- The document cannot be read, and not because it is malformed. -/
  | unreadable (e : ε)
  /-- The servers are no table. -/
  | noTable
  /-- The arguments of a server are nothing that could be listed. -/
  | badArguments
  deriving DecidableEq, Repr

def defaults : Table ServerConfig :=
  Table.ofPairs <|
    ([Language.javascript, .typescript, .tsx].map fun l =>
      (l.name, {
        language := l.name
        command := .text "typescript-language-server"
        args := [.text "--stdio"] })) ++
    [(Language.terraform.name, {
        language := Language.terraform.name
        command := .text "terraform-ls"
        args := [.text "serve"] })]

variable {ε : Type}

/-- The document in a settings file, or an empty one. -/
def read (reader : Reader ε) (content : Option (List UInt8)) : Except (Error ε) Value :=
  match content with
  | none => .ok (.record [])
  | some bytes =>
    match Text.Utf8.decode bytes with
    | .error _ => .error .notText
    | .ok text =>
      match reader (Text.unifyLineEnds text) with
      | .ok document => .ok document
      | .error .malformed => .ok (.record [])
      | .error (.failed e) => .error (.unreadable e)

/-- The members of a list, the characters of a text or the keys of a table. -/
def argumentList? : Value → Option (List Value)
  | .list items => some items
  | .text s => some (s.toList.map fun c => .text (String.singleton c))
  | .record fields => some (fields.map fun p => .text p.1)
  | _ => none

/-- Applies one section to the servers. A section that is no table, or leaves no command, changes
nothing. -/
def applySection (servers : Table ServerConfig) (language : String) (raw : Value) :
    Except (Error ε) (Table ServerConfig) :=
  match raw with
  | .record fields =>
    let base := servers.get? language
    let command := (fields.lookup "command").getD ((base.map ServerConfig.command).getD (.text ""))
    if command.isGiven then
      let args := (fields.lookup "args").getD (.list ((base.map ServerConfig.args).getD []))
      match argumentList? args with
      | some args =>
        let enabled := ((fields.lookup "enabled").map Value.isGiven).getD true
        .ok (servers.insert language { language, command, args, enabled })
      | none => .error .badArguments
    else .ok servers
  | _ => .ok servers

/-- The servers of a settings document, over the defaults. -/
def servers (document : Value) : Except (Error ε) (Table ServerConfig) :=
  match document.field? "servers" with
  | none => .ok defaults
  | some (.record sections) =>
    sections.foldlM (fun servers p => applySection servers p.1 p.2) defaults
  | some _ => .error .noTable

/-- The servers that a settings file gives. Without a file these are the defaults. -/
def load (reader : Reader ε) (content : Option (List UInt8)) :
    Except (Error ε) (Table ServerConfig) :=
  match read reader content with
  | .error e => .error e
  | .ok document => servers document

/-- The reader of the language that settings files are written in. -/
def tomlReader : Reader Value.Toml.Fault := fun text =>
  match Value.Toml.parse text with
  | .ok document => .ok document
  | .error .malformed => .error .malformed
  | .error fault => .error (.failed fault)

end Settings

end CodeAtlas
