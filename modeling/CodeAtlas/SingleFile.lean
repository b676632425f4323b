import CodeAtlas.FileTree
import CodeAtlas.Grammar
import CodeAtlas.Terraform.Manifest

/-!
# Single files

Reading one file by itself. In the results it goes by the name that is to be
displayed, or by its path when there is none. No file has a path that is not
possible, and a tree may be too deep to be walked.
-/

namespace CodeAtlas

def displayName (display : String) (path : Path) : String :=
  if display == "" then path.text else display

/-- The wording for a file that cannot be read. -/
def unreadable (f : FileTree.Fault) (path : Path) : String :=
  "unreadable file: " ++ f.message path

/-- Why reading a file comes to no end. -/
inductive ReadingFault
  /-- A path that no file can have. -/
  | impossiblePath
  | deepTree
  deriving DecidableEq, Repr

/-- What a source file yields. -/
def FileTree.findings (t : FileTree) (gs : Grammars) (path : Path) (language display : String) :
    Except ReadingFault Findings :=
  let name := displayName display path
  if path.isPossible then
    match t.open? path with
    | .error f => .ok (.failed name language (unreadable f path))
    | .ok source =>
      match gs.findings name language source.text source.tree with
      | some f => .ok f
      | none => .error .deepTree
  else .error .impossiblePath

/-- What a configuration file yields. -/
def FileTree.manifest (t : FileTree) (path : Path) (display : String) :
    Except ReadingFault Terraform.Manifest :=
  let name := displayName display path
  if path.isPossible then
    match t.open? path with
    | .error f => .ok (.failed name (unreadable f path))
    | .ok source => .ok (.ofText source.text name)
  else .error .impossiblePath

end CodeAtlas
