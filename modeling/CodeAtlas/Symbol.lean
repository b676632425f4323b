import CodeAtlas.Value.Basic

/-!
# Declarations, call sites and imports

What one source file yields. A declaration is known by an id made of its file,
its name and the line it starts on, so that ids of different files differ. A
call site names its callee as it is written there: a bare name, a name with its
owner, or a method of an owner that is not known.
-/

namespace CodeAtlas

inductive SymbolKind
  | function
  | method
  | classDecl
  | interface
  | typeAlias
  | other (name : String)
  deriving DecidableEq, Repr

namespace SymbolKind

def text : SymbolKind → String
  | function => "function"
  | method => "method"
  | classDecl => "class"
  | interface => "interface"
  | typeAlias => "type"
  | other name => name

def ofText : String → SymbolKind
  | "function" => function
  | "method" => method
  | "class" => classDecl
  | "interface" => interface
  | "type" => typeAlias
  | name => other name

def isKnown : SymbolKind → Bool
  | other _ => false
  | _ => true

/-- Functions and methods: what a call site can stand in. -/
def isCallable : SymbolKind → Bool
  | function | method => true
  | _ => false

end SymbolKind

inductive ReferenceKind
  | call
  | callback
  | other (name : String)
  deriving DecidableEq, Repr

namespace ReferenceKind

def text : ReferenceKind → String
  | call => "call"
  | callback => "callback"
  | other name => name

def ofText : String → ReferenceKind
  | "call" => call
  | "callback" => callback
  | name => other name

def isKnown : ReferenceKind → Bool
  | other _ => false
  | _ => true

end ReferenceKind

/-- The id of a declaration. -/
def symbolId (file name : String) (line : Int) : String :=
  file ++ ":" ++ name ++ ":" ++ toString line

structure Symbol where
  id : String
  name : String
  kind : SymbolKind
  file : String
  line : Int
  endLine : Int
  exported : Bool := false
  signature : String := ""
  docstring : Option String := none
  deriving DecidableEq, Repr

/-- Adds a declaration, unless there is one with its id. -/
def addSymbol (symbols : List Symbol) (s : Symbol) : List Symbol :=
  if symbols.any fun t => t.id == s.id then symbols else symbols ++ [s]

/-- What stands after the last dot of a name. -/
def lastSegment (name : String) : String :=
  String.ofList (name.toList.reverse.takeWhile (· != '.')).reverse

/-- The name without its owner. -/
def Symbol.shortName (s : Symbol) : String := lastSegment s.name

/-- A call site, or a place where a function is handed over as an argument. -/
structure Reference where
  /-- The callee as it is written. -/
  key : String
  file : String
  line : Int
  kind : ReferenceKind := .call
  /-- The id of the function around the site; none outside of functions. -/
  caller : Option String := none
  deriving DecidableEq, Repr

/-- A key that starts so names a method of an unknown owner. -/
def wildcardMark : String := "*."

def Reference.isWildcard (r : Reference) : Bool := wildcardMark.toList.isPrefixOf r.key.toList

structure ImportedName where
  name : String
  localName : Option String := none
  deriving DecidableEq, Repr

structure Import where
  source : String
  names : List ImportedName := []
  moduleAlias : Option String := none
  wildcard : Bool := false
  line : Int := 0
  deriving DecidableEq, Repr

/-- What one file yields. With errors, the other lists may be partial. -/
structure Findings where
  file : String
  language : String
  symbols : List Symbol := []
  references : List Reference := []
  imports : List Import := []
  errors : List String := []
  lineCount : Int := 0
  deriving DecidableEq, Repr

/-- A file that yields nothing but an error. -/
def Findings.failed (file language error : String) : Findings :=
  { file, language, errors := [error] }

namespace Value

def ofOption : Option String → Value
  | none => .null
  | some s => .text s

def texts (items : List String) : Value := .list (items.map .text)

end Value

def Symbol.toValue (s : Symbol) : Value :=
  let fields : List (String × Value) :=
    [("id", .text s.id), ("name", .text s.name), ("kind", .text s.kind.text),
      ("file", .text s.file), ("line", .integer s.line), ("end_line", .integer s.endLine),
      ("exported", .boolean s.exported), ("signature", .text s.signature)]
  match s.docstring with
  | none => .record fields
  | some doc => .record (fields ++ [("docstring", .text doc)])

def Reference.toValue (r : Reference) : Value :=
  .record [("symbol_id", .text r.key), ("file", .text r.file), ("line", .integer r.line),
    ("kind", .text r.kind.text), ("caller", .ofOption r.caller)]

def ImportedName.toValue (n : ImportedName) : Value :=
  .record [("name", .text n.name), ("alias", .ofOption n.localName)]

def Import.toValue (i : Import) : Value :=
  .record [("source", .text i.source), ("symbols", .list (i.names.map ImportedName.toValue)),
    ("module_alias", .ofOption i.moduleAlias), ("is_wildcard", .boolean i.wildcard),
    ("line", .integer i.line)]

end CodeAtlas
