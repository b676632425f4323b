import CodeAtlas.Language
import CodeAtlas.Tree.Node

/-!
# Files

The files that a run can see, with their contents and, for source files, the
trees that a grammar builds of them. Directories are there because something is
in them or because they are listed. What is at a place can be out of reach: it
cannot be read or written, or the way there does not go through.
-/

namespace CodeAtlas

open Text

structure SourceFile where
  path : Path
  content : List UInt8
  tree : Tree.Node := default

/-- The text of a file: malformed bytes are left out, and every line ends with a line feed. -/
def SourceFile.text (f : SourceFile) : List Char := unifyLineEnds (Utf8.decodeLossy f.content)

/-- Why a place cannot be read, written or searched. -/
inductive FileTree.Fault
  | missing
  | notDirectory
  | isDirectory
  | longName
  | denied
  /-- The device fails. -/
  | inputOutput
  /-- The stack is not deep enough for a search. -/
  | deepNesting
  deriving DecidableEq, Repr

/-- Places are given by the parts that lead there from the root. -/
structure FileTree where
  files : List SourceFile := []
  directories : List Path := []
  /-- Why the content of a file, or the list of what is in a directory, cannot be read. -/
  readFault? : List String → Option FileTree.Fault := fun _ => none
  /-- Whether one can go on from a directory to what is in it. -/
  searchable : List String → Bool := fun _ => true
  writable : List String → Bool := fun _ => true
  /-- Which directories a search has no stack for. -/
  tooDeep : List String → Bool := fun _ => false

namespace FileTree

/-- The wording of a fault at a path. -/
def Fault.message (f : Fault) (path : Path) : String :=
  let place := String.ofList (quoted path.text.toList)
  match f with
  | missing => "[Errno 2] No such file or directory: " ++ place
  | notDirectory => "[Errno 20] Not a directory: " ++ place
  | isDirectory => "[Errno 21] Is a directory: " ++ place
  | longName => "[Errno 36] File name too long: " ++ place
  | denied => "[Errno 13] Permission denied: " ++ place
  | inputOutput => "[Errno 5] Input/output error"
  | deepNesting => "maximum recursion depth exceeded"

/-- The file at some parts below the root. -/
def file? (t : FileTree) (parts : List String) : Option SourceFile :=
  t.files.reverse.find? fun f => f.path.parts = parts

def isFile (t : FileTree) (parts : List String) : Bool := (t.file? parts).isSome

/-- Whether something lies below. -/
def isDirectory (t : FileTree) (parts : List String) : Bool :=
  parts.isEmpty ||
  (t.files.any fun f => parts.isPrefixOf f.path.parts && parts != f.path.parts) ||
  t.directories.any fun d => parts.isPrefixOf d.parts

/-- How many bytes a name can have. -/
def nameLimit : Nat := 255

/-- How many bytes a path can have. -/
def pathLimit : Nat := 4095

/-- The place that the parts of a path lead to, from the place `done` on. Every step goes out from
a directory that can be gone through. -/
def locate (t : FileTree) (done : List String) : List String → Except Fault (List String)
  | [] => .ok done
  | part :: rest =>
    if !t.searchable done then .error .denied
    else if part = ".." then t.locate done.dropLast rest
    else if nameLimit < part.utf8ByteSize then .error .longName
    else
      let next := done ++ [part]
      if rest.isEmpty || t.isDirectory next then t.locate next rest
      else if t.isFile next then .error .notDirectory
      else .error .missing

/-- The place that a path leads to. -/
def place (t : FileTree) (path : Path) : Except Fault (List String) :=
  if pathLimit < path.text.utf8ByteSize then .error .longName else t.locate [] path.parts

/-- The place of a directory that is there and can be read. -/
def directory? (t : FileTree) (path : Path) : Option Path :=
  match t.place path with
  | .ok parts =>
    if t.isDirectory parts && t.readFault? parts != some .denied then some ⟨"/", parts⟩ else none
  | .error _ => none

/-- Opens a file for reading. -/
def open? (t : FileTree) (path : Path) : Except Fault SourceFile :=
  match t.place path with
  | .error f => .error f
  | .ok parts =>
    match t.file? parts, t.readFault? parts with
    | some _, some f => .error f
    | some source, none => .ok source
    | none, fault =>
      if !t.isDirectory parts then .error .missing
      else if fault = some .denied then .error .denied
      else .error .isDirectory

/-- Why a file cannot be written. No directory may be in its place, and a new file is written to the
directory around it. -/
def writeFault? (t : FileTree) (path : Path) : Option Fault :=
  match t.place path with
  | .error f => some f
  | .ok parts =>
    let changed := if t.isFile parts then parts else parts.dropLast
    if t.isDirectory parts then some .isDirectory
    else if t.writable changed then none
    else some .denied

/-- Names of directories that hold nothing of a project's own. -/
def skippedNames : List String :=
  [".venv", "venv", "__pycache__", "node_modules", ".git", "site-packages", ".tox",
    ".pytest_cache", "build", "dist", ".mypy_cache", ".ruff_cache", "htmlcov", ".eggs",
    ".terraform", ".next", "coverage"]

/-- Whether a file below a directory is wanted, by the parts of its path from there. -/
def isWanted (languages : List Language) (path : Path) : Bool :=
  (languages.any fun l => l.suffixes.contains path.suffix) &&
    !path.parts.any skippedNames.contains

/-- Whether something of a kind is at a path without steps up, which is looked at for that. -/
def isAt (t : FileTree) (path : Path) (kind : List String → Bool) : Except Fault Bool :=
  match t.place path with
  | .ok _ => .ok (kind path.parts)
  | .error .missing | .error .notDirectory => .ok false
  | .error f => .error f

/-- Whether a search goes into what is at a path: a directory that tells what is in it. One that may
not be read is passed over. -/
def enters (t : FileTree) (path : Path) : Except Fault Bool :=
  match t.place path with
  | .error .denied => .ok false
  | .error f => .error f
  | .ok parts =>
    if !t.isDirectory parts then .ok false
    else if t.tooDeep parts then .error .deepNesting
    else
      match t.readFault? parts with
      | none => .ok true
      | some .denied => .ok false
      | some f => .error f

/-- Whether a search from a directory comes by the parts of a path below it. It tries to go into
whatever it comes by. -/
def comesBy (t : FileTree) (dir : Path) : List String → Except Fault Bool
  | [] => (t.enters dir).map fun _ => true
  | part :: rest =>
    match t.enters dir with
    | .ok true => t.comesBy ⟨dir.lead, dir.parts ++ [part]⟩ rest
    | r => r

/-- A directory and what lies below it, each by its path from there on and once. -/
def within (t : FileTree) (dir : Path) : List Path :=
  (⟨"", []⟩ :: ((t.files.map SourceFile.path ++ t.directories).filterMap
    (·.relativeTo? dir)).flatMap fun p =>
      (List.range p.parts.length).map fun n => ⟨"", p.parts.take (n + 1)⟩).eraseDups

/-- The members of a list that pass a test. The first test that cannot be made ends the search. -/
def select {α : Type} (test : α → Except Fault Bool) : List α → Except Fault (List α)
  | [] => .ok []
  | a :: rest =>
    match test a with
    | .error f => .error f
    | .ok passes => (select test rest).map fun kept => if passes then a :: kept else kept

/-- The files of some languages below a directory, each once, in the order of their paths. All that
the directories list is looked at, wanted or not. -/
def discover (t : FileTree) (root : Path) (languages : List Language) :
    Except Fault (List Path) := do
  if ← t.isAt root t.isDirectory then
    let listed ← select (fun p => t.comesBy root p.parts) (t.within root)
    let files ← select (fun p => t.isAt (root.join p) t.isFile)
      (listed.mergeSort fun p q => Path.partsLe p.parts q.parts)
    .ok ((files.filter (isWanted languages)).map root.join)
  else .ok []

end FileTree

end CodeAtlas
