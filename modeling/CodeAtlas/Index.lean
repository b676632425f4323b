import CodeAtlas.Symbol
import CodeAtlas.Table
import CodeAtlas.Text.Quoted

/-!
# The index

The index is the merge of the findings of all files: what each file holds, every
declaration under its id, every call site under the callee as it is written, and
every module that is imported with the files that import it.
-/

namespace CodeAtlas

structure FileEntry where
  path : String
  language : String
  /-- Ids of the file's declarations. -/
  symbols : List String := []
  imports : List Import := []
  errors : List String := []
  lineCount : Int := 0
  deriving DecidableEq, Repr

structure ModuleEntry where
  name : String
  importedBy : List String := []
  relative : Bool := false
  deriving DecidableEq, Repr

structure Index where
  root : String := ""
  files : Table FileEntry := ∅
  symbols : Table Symbol := ∅
  references : Table (List Reference) := ∅
  modules : Table ModuleEntry := ∅
  deriving DecidableEq

namespace FileEntry

def ofFindings (f : Findings) : FileEntry where
  path := f.file
  language := f.language
  symbols := f.symbols.map Symbol.id
  imports := f.imports
  errors := f.errors
  lineCount := f.lineCount

end FileEntry

namespace ModuleEntry

/-- A module that no file imports yet. One whose name starts with a dot is relative. -/
def new (name : String) : ModuleEntry := { name, relative := name.toList.head? = some '.' }

/-- The module with one more importing file, if it is not there yet. -/
def addImporter (m : ModuleEntry) (file : String) : ModuleEntry :=
  if m.importedBy.contains file then m else { m with importedBy := m.importedBy ++ [file] }

end ModuleEntry

namespace Index

def addImport (file : String) (modules : Table ModuleEntry) (source : String) :
    Table ModuleEntry :=
  modules.insert source (((modules.get? source).getD (.new source)).addImporter file)

/-- Merges the findings of one file. A declaration takes the place of an earlier one with the same
id, a file that of an earlier one with the same path; call sites add up. -/
def add (x : Index) (f : Findings) : Index where
  root := x.root
  files := x.files.insert f.file (.ofFindings f)
  symbols := x.symbols.insertAll (f.symbols.map fun s => (s.id, s))
  references := f.references.foldl (fun t r => t.push r.key r) x.references
  modules := (f.imports.map Import.source).foldl (addImport f.file) x.modules

/-- All call sites, by callee in the order in which callees were first met. -/
def allReferences (x : Index) : List Reference := x.references.values.flatten

/-- A break of the index's consistency. -/
inductive Problem
  | missing (path id : String)
  | symbolKind (s : Symbol)
  | referenceKind (r : Reference)
  deriving DecidableEq, Repr

def Problem.message : Problem → String
  | .missing path id => path ++ ": symbol " ++ id ++ " missing from index"
  | .symbolKind s =>
    s.file ++ ": symbol " ++ s.id ++ " has unknown kind " ++
      String.ofList (Text.quoted s.kind.text.toList)
  | .referenceKind r =>
    r.file ++ ":" ++ toString r.line ++ ": reference " ++ r.key ++ " has unknown kind " ++
      String.ofList (Text.quoted r.kind.text.toList)

/-- Every break of consistency: ids without a declaration, then unknown kinds of declarations and
of call sites. -/
def problems (x : Index) : List Problem :=
  (x.files.entries.flatMap fun (path, entry) =>
    (entry.symbols.filter fun id => !x.symbols.contains id).map (.missing path)) ++
  ((x.symbols.values.filter fun s => !s.kind.isKnown).map .symbolKind) ++
  ((x.allReferences.filter fun r => !r.kind.isKnown).map .referenceKind)

end Index

def FileEntry.toValue (e : FileEntry) : Value :=
  .record [("path", .text e.path), ("language", .text e.language),
    ("symbols", .texts e.symbols), ("imports", .list (e.imports.map Import.toValue)),
    ("errors", .texts e.errors), ("line_count", .integer e.lineCount)]

def ModuleEntry.toValue (m : ModuleEntry) : Value :=
  .record [("name", .text m.name), ("imported_by", .texts m.importedBy),
    ("is_relative", .boolean m.relative)]

def Index.toValue (x : Index) : Value :=
  .record [("root", .text x.root),
    ("files", .record (x.files.sorted.map fun p => (p.1, p.2.toValue))),
    ("symbols", .record (x.symbols.sorted.map fun p => (p.1, p.2.toValue))),
    ("references", .record (x.references.sorted.map fun p =>
      (p.1, .list (p.2.map Reference.toValue)))),
    ("modules", .record (x.modules.sorted.map fun p => (p.1, p.2.toValue)))]

end CodeAtlas
