import CodeAtlas.Arguments
import CodeAtlas.Extraction
import CodeAtlas.Impact
import CodeAtlas.Resolution
import CodeAtlas.Value.Json.Printer

/-!
# Commands

The command line has three commands: one writes the index of a project, one
shows its call graph, one shows its infrastructure and the impact of changes.
What a command does follows from its arguments and from what it can see.
-/

namespace CodeAtlas

open Arguments

/-- What a command can see. -/
structure World where
  files : FileTree
  /-- Where paths start that are not absolute. -/
  directory : Path := ⟨"/", []⟩
  /-- The settings file. -/
  settings : Option (List UInt8) := none
  grammars : Grammars := {}
  programs : Server.Programs := .ofTable ∅

/-- A column of a printed table. -/
structure Column where
  title : String
  style : String := ""
  justify : String := "left"
  deriving DecidableEq, Repr

inductive Printed
  | line (markup : String)
  | table (title : String) (columns : List Column) (rows : List (List String))
  deriving DecidableEq, Repr

/-- Why a command died. -/
inductive CommandError
  | settings (e : Settings.Error Value.Toml.Fault)
  | extraction (c : Crash)
  /-- A path that no file can have. -/
  | impossiblePath
  | writing (f : FileTree.Fault)
  deriving DecidableEq, Repr

/-- What a command leaves behind. -/
structure Report where
  exitCode : Nat := 0
  error : Option CommandError := none
  /-- Lines written as they are. -/
  echoed : List String := []
  /-- What is shown with markup. -/
  printed : List Printed := []
  written : Option (Path × List Char) := none

namespace Command

/-- The arguments of a command. -/
structure Options where
  /-- The directory to read, from the root on. -/
  path : Path
  languages : List String := []
  useServers : Bool := true
  output : Option Path := none
  limit : Int := displayLimit

/-- The answer to arguments that are wrong. -/
def misuse : Report := { exitCode := 2 }

def died (e : CommandError) : Report := { exitCode := 1, error := some e }

def versionLine : String := "structgraph v0.1.0"

/-- Reads a project. The settings are read even if no server is used. -/
def extract (w : World) (o : Options) : Except CommandError Extraction.Yield :=
  match Settings.load Settings.tomlReader w.settings with
  | .error e => .error (.settings e)
  | .ok servers =>
    let x : Extraction := {
      root := o.path
      files := w.files
      grammars := w.grammars
      servers
      useServers := o.useServers
      programs := w.programs }
    match (x.extract (Language.expand o.languages)).2 with
    | .error c => .error (.extraction c)
    | .ok y => .ok y

def graphValue (entries : List (String × List String)) : Value :=
  .record (entries.map fun p => (p.1, .texts p.2))

/-- The document that the index command writes. -/
def payload (index : Index) (inventory : Terraform.Inventory) : Value :=
  .record [("index", index.toValue), ("call_graph", graphValue index.callGraph.entries),
    ("import_graph", graphValue index.importGraph),
    ("unresolved", .list (index.unresolved.map Reference.toValue)),
    ("infrastructure", inventory.toValue),
    ("dependency_graph", graphValue inventory.dependencyGraph.entries)]

/-- One line of counts. A file of infrastructure counts as one with errors when it has some. -/
def countsLine (index : Index) (inventory : Terraform.Inventory) : String :=
  let failed := (index.files.values.filter fun e => !e.errors.isEmpty).length +
    inventory.errors.size
  s!"Files: {index.files.size} | Symbols: {index.symbols.size} | " ++
  s!"References: {index.allReferences.length} | Resources: {inventory.resources.size} | " ++
  s!"Files with errors: {failed}"

def index (w : World) (o : Options) : Report :=
  match extract w o with
  | .error e => died e
  | .ok y =>
    let inventory := y.inventory.withUsage
    let echoed := [s!"Indexed '{o.path.text}'.", countsLine y.index inventory]
    match o.output with
    | none => { echoed }
    | some path =>
      match w.files.writeFault? (w.directory.join path) with
      | some f => died (.writing f)
      | none =>
        { echoed := echoed ++ [s!"Wrote {path.text}"]
          written := some (path, Value.Json.indented 0 (payload y.index inventory)) }

def calls (w : World) (o : Options) : Report :=
  match extract w o with
  | .error e => died e
  | .ok y =>
    let graph := y.index.callGraph
    if graph.isEmpty then { echoed := ["No calls found."] }
    else
      { echoed := graph.sorted.map fun (caller, callees) =>
          caller ++ " -> " ++ ", ".intercalate callees }

def severityColor : Severity → String
  | .high => "red"
  | .medium => "yellow"
  | .low => "green"

def dependencyTable (graph : Graph) : Printed :=
  .table "Dependencies" [⟨"Node", "cyan", "left"⟩, ⟨"Depends on", "", "left"⟩]
    (graph.sorted.map fun (node, dependencies) => [node, ", ".intercalate dependencies])

def impactRow (i : Impact) : List String :=
  let color := severityColor i.severity
  [i.target, s!"[{color}]{i.severity.text}[/{color}]", toString i.affected.length,
    ", ".intercalate i.affected]

def impactTable (limit : Int) (graph : Graph) : Printed :=
  .table "Blast radius"
    [⟨"Target", "cyan", "left"⟩, ⟨"Severity", "", "left"⟩, ⟨"Affected", "", "right"⟩,
      ⟨"Resources", "", "left"⟩]
    ((firstEntries limit graph.impacts).map impactRow)

def infra (w : World) (o : Options) : Report :=
  match extract w { o with languages := [Language.terraform.name] } with
  | .error e => died e
  | .ok y =>
    if y.inventory.isEmpty then { echoed := ["No infrastructure blocks found."] }
    else
      let graph := y.inventory.dependencyGraph
      let unused := (y.inventory.variableUsage.filter fun p => p.2.isEmpty).map Prod.fst
      let notice := "[yellow]Unused variables:[/yellow] " ++ ", ".intercalate unused
      { printed := [dependencyTable graph, impactTable o.limit graph] ++
          (if unused.isEmpty then [] else [.line notice]) }

def groupOptions : List OptionSpec :=
  [⟨"version", some 'v', false⟩, ⟨"verbose", none, false⟩, ⟨"help", none, false⟩]

def languageOption : OptionSpec := ⟨"language", some 'l', true⟩

def noServersOption : OptionSpec := ⟨"no-lsp", none, false⟩

def outputOption : OptionSpec := ⟨"output", some 'o', true⟩

def limitOption : OptionSpec := ⟨"limit", some 'n', true⟩

def helpOption : OptionSpec := ⟨"help", none, false⟩

/-- The values of an option, in the order given. -/
def valuesOf (given : List Given) (o : OptionSpec) : List String :=
  (given.filter fun g => g.name = o.long).filterMap Given.value

def isGiven (given : List Given) (o : OptionSpec) : Bool := given.any fun g => g.name = o.long

/-- The limit that was given last, which has to be a number. -/
def limitOf? (given : List Given) : Option Int :=
  match (valuesOf given limitOption).getLast? with
  | none => some displayLimit
  | some s => Text.readArgument? s.toList

/-- Reads the arguments of a command and runs it on a directory that is there. -/
def withOptions (w : World) (specs : List OptionSpec) (args : List String)
    (command : World → Options → Report) : Report :=
  match Arguments.parse (helpOption :: specs) true args with
  | none => misuse
  | some (given, others) =>
    if isGiven given helpOption then {}
    else
      match others, limitOf? given with
      | [path], some limit =>
        let output := (valuesOf given outputOption).getLast?.map Path.ofText
        let place := w.directory.join (.ofText path)
        if (place :: output.toList).all Path.isPossible then
          match if path = "" then none else w.files.directory? place with
          | none => misuse
          | some path => command w {
            path
            languages := valuesOf given languageOption
            useServers := !isGiven given noServersOption
            output
            limit }
        else died .impossiblePath
      | _, _ => misuse

/-- Runs a command by its name. -/
def byName (w : World) (name : String) (args : List String) : Report :=
  match name with
  | "index" => withOptions w [languageOption, noServersOption, outputOption] args index
  | "calls" => withOptions w [languageOption, noServersOption] args calls
  | "infra" => withOptions w [noServersOption, limitOption] args infra
  | _ => misuse

/-- Runs the command line. -/
def run (w : World) (args : List String) : Report :=
  match Arguments.parse groupOptions false args with
  | none => misuse
  | some (given, rest) =>
    match given.find? fun g => g.name = "version" || g.name = "help" with
    | some g => if g.name = "version" then { echoed := [versionLine] } else {}
    | none =>
      match rest with
      | [] => misuse
      | name :: args => byName w name args

end Command

end CodeAtlas
