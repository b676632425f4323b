import CodeAtlas.Terraform.Attribute
import CodeAtlas.Terraform.Block
import CodeAtlas.Terraform.Mention

/-!
# Manifests

A manifest is what one configuration file yields: one record per block, kind by
kind, and one per value for a block of locals. The blocks are found by reading
the lines of the file, or at lines that someone else names.
-/

namespace CodeAtlas.Terraform

open CodeAtlas.Text

structure Resource where
  type : String
  name : String
  provider : String
  file : String
  line : Int
  dependencies : List String := []
  references : List String := []
  deriving DecidableEq, Repr

def Resource.id (r : Resource) : String := r.type ++ "." ++ r.name

structure DataSource where
  type : String
  name : String
  file : String
  line : Int
  references : List String := []
  deriving DecidableEq, Repr

def DataSource.id (d : DataSource) : String := "data." ++ d.type ++ "." ++ d.name

structure ModuleCall where
  name : String
  source : String
  file : String
  line : Int
  arguments : Table String := ∅
  references : List String := []
  deriving DecidableEq

def ModuleCall.id (m : ModuleCall) : String := "module." ++ m.name

structure VariableDecl where
  name : String
  file : String
  line : Int
  type : Option String := none
  default : Option String := none
  description : Option String := none
  usedBy : List String := []
  deriving DecidableEq, Repr

structure OutputValue where
  name : String
  value : String
  file : String
  line : Int
  description : Option String := none
  references : List String := []
  deriving DecidableEq, Repr

structure Provider where
  name : String
  file : String
  line : Int
  aliasName : Option String := none
  region : Option String := none
  deriving DecidableEq, Repr

structure LocalValue where
  name : String
  value : String
  file : String
  line : Int
  references : List String := []
  deriving DecidableEq, Repr

/-- The records of blocks, kind by kind. -/
structure Records where
  resources : List Resource := []
  dataSources : List DataSource := []
  modules : List ModuleCall := []
  variableDecls : List VariableDecl := []
  outputs : List OutputValue := []
  providers : List Provider := []
  locals : List LocalValue := []
  errors : List String := []
  deriving DecidableEq

namespace Records

/-- Joins records list by list. -/
def append (a b : Records) : Records where
  resources := a.resources ++ b.resources
  dataSources := a.dataSources ++ b.dataSources
  modules := a.modules ++ b.modules
  variableDecls := a.variableDecls ++ b.variableDecls
  outputs := a.outputs ++ b.outputs
  providers := a.providers ++ b.providers
  locals := a.locals ++ b.locals
  errors := a.errors ++ b.errors

instance : Append Records := ⟨append⟩

/-- Joins any number of records. -/
def join (parts : List Records) : Records := parts.foldr append {}

theorem errors_join (parts : List Records) : (join parts).errors = parts.flatMap errors := by
  induction parts with
  | nil => rfl
  | cons part parts ih =>
    rw [List.flatMap_cons, ← ih]
    rfl

end Records

structure Manifest extends Records where
  file : String
  deriving DecidableEq

/-- A file that yields nothing but an error. -/
def Manifest.failed (file error : String) : Manifest := { file, errors := [error] }

/-- The problem of a block that has not as many closing as opening braces. -/
def unterminated (line : Int) (header : Header) : String :=
  "line " ++ toString line ++ ": unterminated " ++ header.keyword ++ " block"

/-- The record of a block, or the records for a block of locals. -/
def Block.contents (file : String) (b : Block) : Records :=
  let text := b.text
  match b.header with
  | .resource type name =>
    { resources := [{
        type, name, file
        provider := providerOf type text
        line := b.line
        dependencies := statedDependencies text
        references := (mentions text).filter (· != type ++ "." ++ name) }] }
  | .dataSource type name =>
    { dataSources := [{
        type, name, file
        line := b.line
        references := (mentions text).filter (· != "data." ++ type ++ "." ++ name) }] }
  | .moduleCall name =>
    { modules := [{
        name, file
        source := (attribute? text "source").getD ""
        line := b.line
        arguments := moduleArguments text
        references := mentions text }] }
  | .variableDecl name =>
    { variableDecls := [{
        name, file
        line := b.line
        type := attribute? text "type"
        default := attribute? text "default"
        description := attribute? text "description" }] }
  | .outputValue name =>
    { outputs := [{
        name, file
        value := (attribute? text "value").getD ""
        line := b.line
        description := attribute? text "description"
        references := mentions text }] }
  | .provider name =>
    { providers := [{
        name, file
        line := b.line
        aliasName := attribute? text "alias"
        region := attribute? text "region" }] }
  | .locals =>
    { locals := (localValues text).entries.map fun (name, value) =>
        { name, value, file, line := b.line, references := mentions value.toList } }

/-- All that a block yields: its records, and its problem if it is not closed. -/
def Block.records (file : String) (b : Block) : Records :=
  { b.contents file with errors := if b.isClosed then [] else [unterminated b.line b.header] }

/-- Reads the blocks of a text. -/
def Manifest.ofText (text : List Char) (file : String) : Manifest :=
  { Records.join ((blocks 1 (sourceLines text)).map (Block.records file)) with file }

/-- The block that opens on a line of the given number. Lines are counted from one. -/
def blockAt? (lines : List (List Char)) (line : Int) : Option Block :=
  match lines.drop (line - 1).toNat with
  | [] => none
  | first :: rest =>
    (header? first).map fun header => ⟨header, (cutBlock (first :: rest)).1, line⟩

/-- What a named line yields: the block that opens there, nothing when none does, and a problem
when there is no such line. -/
def anchorRecords (lines : List (List Char)) (file : String) (name : String) (line : Int) :
    Records :=
  if 1 ≤ line ∧ line ≤ lines.length then
    match blockAt? lines line with
    | some block => block.records file
    | none => {}
  else
    { errors := ["symbol " ++ name ++ " points outside the file (line " ++ toString line ++ ")"] }

/-- Reads the blocks that open on the named lines. -/
def Manifest.ofAnchors (text : List Char) (file : String) (anchors : List (String × Int)) :
    Manifest :=
  let lines := sourceLines text
  { Records.join (anchors.map fun (name, line) => anchorRecords lines file name line) with file }

end CodeAtlas.Terraform
