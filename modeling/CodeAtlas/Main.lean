import CodeAtlas.Command

/-!
# The command line

Reads the directories that the arguments name, runs the command and writes what
it leaves behind. No grammar and no language server is at hand here, so source
files are listed with an error and configuration files are read by their text.
-/

namespace CodeAtlas.Main

/-- What was found in some directories. -/
structure Found where
  files : List SourceFile := []
  directories : List Path := []
  /-- Files and directories that could not be read. -/
  unread : List Path := []

def Found.append (a b : Found) : Found :=
  ⟨a.files ++ b.files, a.directories ++ b.directories, a.unread ++ b.unread⟩

instance : Append Found := ⟨Found.append⟩

def Found.tree (f : Found) : FileTree where
  files := f.files
  directories := f.directories
  readFault? parts := if f.unread.any fun p => p.parts = parts then some .denied else none

mutual

/-- What is in a directory, whose entries can be asked for. Links to directories are not
followed. -/
partial def inDirectory (path : Path) (list : IO (Array IO.FS.DirEntry)) : IO Found := do
  try
    let mut found : Found := { directories := [path] }
    for entry in ← list do
      found := found ++ (← atEntry entry)
    return found
  catch _ => return { directories := [path], unread := [path] }

partial def atEntry (entry : IO.FS.DirEntry) : IO Found := do
  let path := Path.ofText entry.path.toString
  if (← entry.path.symlinkMetadata).type == .dir then inDirectory path entry.path.readDir
  else if (Language.ofPath path).isNone || (← entry.path.isDir) then return {}
  else
    try
      let content ← IO.FS.readBinFile entry.path
      return { files := [{ path, content := content.toList }] }
    catch _ => return { files := [{ path, content := [] }], unread := [path] }

end

/-- What lies below the directories among the arguments. -/
def foundBelow (args : List String) : IO Found := do
  let mut found : Found := {}
  for arg in args do
    try
      let place ← IO.FS.realPath arg
      if ← place.isDir then
        found := found ++ (← inDirectory (Path.ofText place.toString) place.readDir)
    catch _ => pure ()
  return found

/-- The directory of a path to write to, if it is there. -/
def outputDirectories (here : Path) (args : List String) : IO (List Path) := do
  let mut found := []
  for arg in args do
    let place := (here.join (.ofText arg)).resolve
    let parent : Path := ⟨place.lead, place.parts.dropLast⟩
    try
      if ← (← IO.FS.realPath parent.text).isDir then found := found ++ [parent]
    catch _ => pure ()
  return found

/-- The content of the settings file, if there is one. -/
def settingsContent : IO (Option (List UInt8)) := do
  let home ← match ← IO.getEnv "STRUCTGRAPH_HOME" with
    | some dir => pure dir
    | none => pure (((← IO.getEnv "HOME").getD "") ++ "/.structgraph")
  try
    let content ← IO.FS.readBinFile (home ++ "/config.toml")
    return some content.toList
  catch _ => return none

/-- A printed item as plain lines. -/
def linesOf : Printed → List String
  | .line markup => [markup]
  | .table title columns rows =>
    title :: "  ".intercalate (columns.map Column.title) :: rows.map fun row => "  ".intercalate row

def run (args : List String) : IO UInt32 := do
  let here := Path.ofText (← IO.currentDir).toString
  let found ← foundBelow args
  let world : World := {
    files := (found ++ { directories := ← outputDirectories here args }).tree
    directory := here
    settings := ← settingsContent }
  let report := Command.run world args
  for line in report.echoed do IO.println line
  for item in report.printed do
    for line in linesOf item do IO.println line
  if let some (path, text) := report.written then
    IO.FS.writeFile path.text (String.ofList text)
  return report.exitCode.toUInt32

end CodeAtlas.Main

def main (args : List String) : IO UInt32 := CodeAtlas.Main.run args
