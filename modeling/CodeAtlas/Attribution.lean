import CodeAtlas.Server.Outline
import CodeAtlas.Symbol
import CodeAtlas.Text.Blank
import CodeAtlas.Text.Lines

/-!
# Declarations from outlines

A server's outline gives reliable ranges of declarations, the tree of a file
gives its call sites. The declarations of the outline are named as the tree
names them and take what the tree knows of them; then each call site belongs to
the innermost function around it.
-/

namespace CodeAtlas

open Text
open Server (Outline)

namespace Attribution

/-- The kind of an entry that is a declaration by itself. -/
def kindOf? : Int → Option SymbolKind
  | 5 => some .classDecl
  | 6 | 9 => some .method
  | 11 => some .interface
  | 12 => some .function
  | 26 => some .typeAlias
  | _ => none

/-- Entries for variables and constants. -/
def isVariable (kind : Int) : Bool := kind = 13 || kind = 14

/-- Entries for properties and fields. -/
def isMember (kind : Int) : Bool := kind = 7 || kind = 8

/-- What is known when an outline is read. -/
structure Setting where
  /-- The declarations that the tree has. -/
  walked : List Symbol
  file : String
  lines : List (List Char)

/-- The last declaration of a name. -/
def Setting.known? (x : Setting) (name : String) : Option Symbol :=
  x.walked.reverse.find? fun s => s.name == name

/-- The name of an entry: methods and members of a container carry its name. -/
def entryName (o : Outline) (container : Value) : String :=
  if (kindOf? o.kind = some .method || isMember o.kind) && container.isGiven then
    container.display ++ "." ++ o.name
  else o.name

/-- The kind under which an entry is declared. A variable or member counts only when the tree has a
declaration of its name. -/
def entryKind? (x : Setting) (o : Outline) (container : Value) : Option SymbolKind :=
  match kindOf? o.kind with
  | some kind => some kind
  | none =>
    if isVariable o.kind || isMember o.kind then
      (x.known? (entryName o container)).map Symbol.kind
    else none

/-- The line of an entry, trimmed, or its name when there is no such line. -/
def lineText (x : Setting) (o : Outline) : String :=
  if 0 < o.line then
    match x.lines[(o.line - 1).toNat]? with
    | some line => String.ofList (trim line)
    | none => o.name
  else o.name

/-- The declaration of an entry. -/
def declare (x : Setting) (o : Outline) (name : String) (kind : SymbolKind) : Symbol :=
  let known := x.known? name
  { id := symbolId x.file name o.line
    name, kind
    file := x.file
    line := o.line
    endLine := o.endLine
    exported := (known.map Symbol.exported).getD false
    signature := (known.map Symbol.signature).getD (lineText x o)
    docstring := known.bind Symbol.docstring }

/-- Adds the declaration of an entry, unless there is one with its id. -/
def record (x : Setting) (symbols : List Symbol) (o : Outline) (container : Value) :
    List Symbol :=
  match entryKind? x o container with
  | none => symbols
  | some kind => addSymbol symbols (declare x o (entryName o container) kind)

/-- The container of an entry's children: the entry itself if it is a class or an interface. -/
def childContainer (x : Setting) (o : Outline) (container : Value) : Value :=
  match entryKind? x o container with
  | some .classDecl | some .interface => .text o.name
  | _ => container

/-- How many entries a forest has. -/
def size : List Outline → Nat
  | [] => 0
  | ⟨_, _, _, _, _, _, children⟩ :: rest => 1 + size children + size rest

theorem size_append (a b : List Outline) : size (a ++ b) = size a + size b := by
  induction a with
  | nil => simp [size]
  | cons o rest ih =>
    obtain ⟨_, _, _, _, _, _, children⟩ := o
    simp only [List.cons_append, size, ih]
    omega

/-- Entries with one container. -/
def under (container : Value) (forest : List Outline) : List (Outline × Value) :=
  forest.map fun o => (o, container)

@[simp] theorem map_fst_under (container : Value) (forest : List Outline) :
    (under container forest).map Prod.fst = forest := by
  simp [under, Function.comp_def]

/-- Works through a stack of entries, each with its container. The children of an entry come before
what is below it on the stack. -/
def collect (x : Setting) (symbols : List Symbol) (stack : List (Outline × Value)) :
    List Symbol :=
  match stack with
  | [] => symbols
  | (o, container) :: rest =>
    collect x (record x symbols o container)
      (under (childContainer x o container) o.children ++ rest)
termination_by size (stack.map Prod.fst)
decreasing_by
  obtain ⟨_, _, _, _, _, _, children⟩ := o
  simp only [List.map_append, List.map_cons, map_fst_under, size_append, size]
  omega

/-- The declarations of an outline. -/
def symbols (outline : List Outline) (walked : Findings) (file : String)
    (lines : List (List Char)) : List Symbol :=
  collect ⟨walked.symbols, file, lines⟩ [] (outline.map fun o => (o, o.container))

/-- The first of the shortest ranges. -/
def shortest? : List Symbol → Option Symbol
  | [] => none
  | s :: rest =>
    match shortest? rest with
    | none => some s
    | some t => if s.endLine - s.line ≤ t.endLine - t.line then some s else some t

/-- The innermost function around a line. -/
def enclosing? (symbols : List Symbol) (line : Int) : Option Symbol :=
  shortest? (symbols.filter fun s => s.kind.isCallable && s.line ≤ line && line ≤ s.endLine)

/-- Call sites with the innermost functions around them as callers. -/
def reattribute (references : List Reference) (symbols : List Symbol) : List Reference :=
  references.map fun r => { r with caller := (enclosing? symbols r.line).map Symbol.id }

/-- The name of a block as a server gives it, with dots between its words and without quotes. -/
def blockName (name : String) : String :=
  let spaced := name.toList.map fun c => if c = '.' then ' ' else c
  let parts := (words spaced).map (trimSet ['"'])
  String.ofList (joinPieces ['.'] (parts.filter fun p => !p.isEmpty))

end Attribution

end CodeAtlas
