import CodeAtlas.Index
import CodeAtlas.Server.Session
import CodeAtlas.Settings
import CodeAtlas.SingleFile
import CodeAtlas.Strategy
import CodeAtlas.Terraform.Inventory

/-!
# Extraction

A run reads the files of a project one after another and merges what they yield.
For each file the language server comes first, if one is set up for the language
and can be started, and then what the library can do by itself. There is one
session for each command line; one that could not be started is not tried again.
While a session waits, the readers of the other sessions run.
-/

namespace CodeAtlas

open Server

/-- What can end a run. -/
inductive Crash
  | session (f : Failure)
  /-- A command line that cannot be told from another. -/
  | badCommandLine
  /-- A path that is not below the project. -/
  | outside
  /-- A path that no file can have. -/
  | impossiblePath
  /-- A line number that cannot be written. -/
  | longNumber
  /-- A tree that is too deep to be walked. -/
  | deepTree
  /-- A project that cannot be searched for files. -/
  | search (f : FileTree.Fault)
  deriving DecidableEq, Repr

/-- A command line with its session; without one the server is not available. -/
structure Client where
  argv : List Value
  session : Option Session

/-- Whether two command lines are the same, part by part. -/
def sameArgv (a b : List Value) : Bool :=
  a.length == b.length && (a.zip b).all fun p => p.1.same p.2

structure Extraction where
  root : Path
  files : FileTree
  grammars : Grammars := {}
  servers : Table ServerConfig := ∅
  useServers : Bool := true
  programs : Programs := .ofTable ∅
  clients : List Client := []
  /-- What the servers have seen. -/
  log : List Event := []

namespace Extraction

def session? (x : Extraction) (argv : List Value) : Option Session :=
  (x.clients.find? fun c => sameArgv c.argv argv).bind Client.session

/-- Stores the session of a command line. -/
def setSession (x : Extraction) (argv : List Value) (s : Option Session) : Extraction :=
  if x.clients.any fun c => sameArgv c.argv argv then
    { x with
      clients := x.clients.map fun c => if sameArgv c.argv argv then ⟨c.argv, s⟩ else c }
  else { x with clients := x.clients ++ [⟨argv, s⟩] }

/-- Runs the reader of a session: the session after it, and what its server saw. -/
def settleClient (c : Client) : Client × List Event :=
  match c.session with
  | none => (c, [])
  | some s =>
    let s := { s with log := [] }.settle
    (⟨c.argv, some s⟩, s.log)

/-- Runs the readers of all sessions but one. -/
def settleOthers (x : Extraction) (argv : List Value) : Extraction :=
  let settled := x.clients.map fun c =>
    if sameArgv c.argv argv then (c, []) else settleClient c
  { x with clients := settled.map Prod.fst, log := x.log ++ settled.flatMap Prod.snd }

/-- Does something with a session. The other readers run where the session waits first. -/
def perform {α : Type} (x : Extraction) (s : Session) (op : Session → Session × α) :
    Extraction × Session × α :=
  let (s, a) := op { s with log := [] }
  let before := s.log.takeWhile (· != .pause)
  let after := s.log.dropWhile (· != .pause)
  let x := { x with log := x.log ++ before }
  if after.isEmpty then (x, s, a)
  else
    let x := x.settleOthers s.command
    ({ x with log := x.log ++ after }, s, a)

/-- Lists and records cannot stand in a command line that is looked up. -/
def isPlain : Value → Bool
  | .list _ | .record _ => false
  | _ => true

/-- Whether an error belongs to the start of a session. -/
def isStartError : LinkError → Bool
  | .cannotStart _ | .spawn _ _ | .handshake _ _ => true
  | _ => false

/-- Starts a session for a language. A server that does not start is not available. -/
def launch (x : Extraction) (language : String) (argv : List Value) (script : Script) :
    Extraction × Except Crash (Option (List Value)) :=
  let s : Session := { command := argv, root := x.root, languageId := language, script }
  match x.perform s Session.start with
  | (x, s, none) => (x.setSession argv (some s), .ok (some argv))
  | (x, _, some (.link e)) =>
    if isStartError e then (x.setSession argv none, .ok none)
    else (x, .error (.session (.link e)))
  | (x, _, some f) => (x, .error (.session f))

/-- The command line of a session that is ready for a language, if there can be one. -/
def clientFor (x : Extraction) (language : String) :
    Extraction × Except Crash (Option (List Value)) :=
  match x.servers.get? language with
  | none => (x, .ok none)
  | some config =>
    if !config.enabled then (x, .ok none)
    else if !config.argv.all isPlain then (x, .error .badCommandLine)
    else if x.clients.any fun c => sameArgv c.argv config.argv then
      let ready := ((x.session? config.argv).map Session.isReady).getD false
      (x, .ok (if ready then some config.argv else none))
    else
      match x.programs config.command with
      | .ok (some script) => x.launch language config.argv script
      | .ok none => (x.setSession config.argv none, .ok none)
      | .error f => (x, .error (.session (.line f)))

/-- Asks a session for the outline of a file. -/
def fetch (x : Extraction) (argv : List Value) (path : Path) (text : List Char) :
    Extraction × Except Failure (List Outline) :=
  match x.session? argv with
  | none => (x, .error (.link .notRunning))
  | some s =>
    let id := (Language.serverId? path).getD s.languageId
    let (x, s, r) := x.perform s fun s => s.fetchOutline path (String.ofList text) id
    (x.setSession argv (some s), r)

/-- A strategy that asks a server. An empty outline is a refusal; one that cannot be made use of
ends the run. -/
def serverStrategy (name empty : String) (argv : List Value) (path : Path) (file : String)
    (text : List Char) (read : List Outline → Except Crash FileResult) :
    Strategy Extraction Crash where
  name := name
  run x :=
    match x.fetch argv path text with
    | (x, .error (.link e)) => (x, .refusal e.message)
    | (x, .error f) => (x, .crash (.session f))
    | (x, .ok []) => (x, .refusal (file ++ ": language server reported no " ++ empty))
    | (x, .ok outline) =>
      match read outline with
      | .ok r => (x, .success r)
      | .error e => (x, .crash e)

/-- The findings by an outline. The lines of all symbols have to be written. -/
def findingsBy (x : Extraction) (file language : String) (text : List Char) (root : Tree.Node)
    (outline : List Outline) : Except Crash FileResult :=
  match outlinedFindings x.grammars file language text root outline with
  | none => .error .deepTree
  | some f =>
    if f.symbols.all fun s => Text.isWritable s.line then .ok (.code f) else .error .longNumber

/-- The manifest by an outline. The lines of its entries have to be written. -/
def manifestBy (file : String) (text : List Char) (outline : List Outline) :
    Except Crash FileResult :=
  if outline.all fun o => Text.isWritable o.line then
    .ok (.infrastructure (outlinedManifest file text outline))
  else .error .longNumber

/-- The strategies for a file of a language, the server first. -/
def strategies (x : Extraction) (server : Option (List Value)) (path : Path)
    (file language : String) (text : List Char) (root : Tree.Node) :
    List (Strategy Extraction Crash) :=
  if Language.isInfrastructure language then
    (server.map fun argv =>
      serverStrategy "terraform-ls" "blocks" argv path file text (manifestBy file text)).toList ++
    [.blockText file text]
  else
    (server.map fun argv =>
      serverStrategy "lsp" "symbols" argv path file text
        (x.findingsBy file language text root)).toList ++
    [.tree x.grammars .deepTree file language text root]

/-- What one file yields. A path that is not absolute is below the project. -/
def extractFile (x : Extraction) (path : Path) (language : String) :
    Extraction × Except Crash FileResult :=
  match if path.isAbsolute then path.relativeTo? x.root else some path with
  | none => (x, .error .outside)
  | some relative =>
    let file := relative.text
    let place := x.root.join path
    if place.isPossible then
      match x.files.open? place with
      | .error f => (x, .ok (.failed file language (unreadable f place)))
      | .ok source =>
        match if x.useServers then x.clientFor language else (x, .ok none) with
        | (x, .error e) => (x, .error e)
        | (x, .ok server) =>
          Strategy.tryAll file language
            (x.strategies server path file language source.text source.tree) [] x
    else (x, .error .impossiblePath)

/-- Stops a session. -/
def stopClient (x : Extraction) (argv : List Value) : Extraction :=
  match x.session? argv with
  | none => x
  | some s =>
    let (x, s, _) := x.perform s fun s => (s.stop, ())
    x.setSession argv (some s)

/-- Stops all sessions, in the order in which they were started. -/
def close (x : Extraction) : Extraction :=
  { (x.clients.map Client.argv).foldl stopClient x with clients := [] }

/-- What a run yields. -/
structure Yield where
  index : Index
  inventory : Terraform.Inventory := {}

def Yield.add (y : Yield) : FileResult → Yield
  | .code f => { y with index := y.index.add f }
  | .infrastructure m => { y with inventory := y.inventory.add m }

/-- Reads files in turn and merges what they yield. -/
def extractAll (x : Extraction) (y : Yield) : List Path → Extraction × Except Crash Yield
  | [] => (x, .ok y)
  | path :: rest =>
    match Language.ofPath path with
    | none => extractAll x y rest
    | some language =>
      match x.extractFile path language.name with
      | (x, .error e) => (x, .error e)
      | (x, .ok r) => extractAll x (y.add r) rest

/-- The files of some languages below the project. When no language is left to ask for, they are
those of all. -/
def discovered (x : Extraction) (languages : List Language) :
    Except FileTree.Fault (List Path) :=
  x.files.discover x.root (if languages.isEmpty then Language.all else languages)

/-- Reads every file of some languages below the project, and stops the servers. -/
def extract (x : Extraction) (languages : List Language) : Extraction × Except Crash Yield :=
  match x.discovered languages with
  | .error f => (x, .error (.search f))
  | .ok paths =>
    let (x, r) := x.extractAll { index := { root := x.root.text } } paths
    (x.close, r)

end Extraction

end CodeAtlas
