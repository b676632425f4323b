import CodeAtlas.Table
import CodeAtlas.Tree.Walk

/-!
# Grammars

A tree is built by a grammar, which a package provides under a function. A
language without a grammar that can be loaded yields an error for each file, and
a tree that is too deep to be walked yields nothing at all.
-/

namespace CodeAtlas

/-- Where the grammar of a language is found. -/
structure Grammar where
  package : String
  function : String
  deriving DecidableEq, Repr

namespace Grammar

/-- The grammars of the languages that are known. -/
def standard : Table Grammar :=
  Table.ofPairs
    [("javascript", ⟨"tree_sitter_javascript", "language"⟩),
      ("typescript", ⟨"tree_sitter_typescript", "language_typescript"⟩),
      ("tsx", ⟨"tree_sitter_typescript", "language_tsx"⟩)]

/-- Why a grammar cannot be loaded. -/
inductive LoadError
  | unmapped (language : String)
  | noName (language : String)
  | relative (language package : String)
  | notInstalled (package : String)
  | noFunction (language package function : String)
  deriving DecidableEq, Repr

def LoadError.message : LoadError → String
  | unmapped language => s!"no grammar mapped for language '{language}'"
  | noName language => s!"could not load grammar for {language}: Empty module name"
  | relative language package =>
    s!"could not load grammar for {language}: the 'package' argument is required " ++
      s!"to perform a relative import for {String.ofList (Text.quoted package.toList)}"
  | notInstalled package => s!"grammar package '{package}' is not installed"
  | noFunction language package function =>
    s!"could not load grammar for {language}: module '{package}' has no attribute '{function}'"

/-- Looks for the package of a grammar and its function among those installed. -/
def load (packages : List (String × List String)) (language : String) (g : Grammar) :
    Except LoadError Unit :=
  match packages.lookup g.package with
  | some functions =>
    if functions.contains g.function then .ok ()
    else .error (.noFunction language g.package g.function)
  | none =>
    if g.package == "" then .error (.noName language)
    else if g.package.toList.head? = some '.' then .error (.relative language g.package)
    else .error (.notInstalled g.package)

end Grammar

/-- The grammars by language, and what there is to load and to walk them. -/
structure Grammars where
  mapped : Table Grammar := Grammar.standard
  /-- Packages that are installed, each with the functions it has. -/
  packages : List (String × List String) := []
  /-- Which trees the stack is deep enough for. -/
  walks : Tree.Node → Bool := fun _ => true

namespace Grammars

/-- Why there is no tree for a language, if there is none. -/
def loadError? (gs : Grammars) (language : String) : Option Grammar.LoadError :=
  match gs.mapped.get? language with
  | none => some (.unmapped language)
  | some g =>
    match g.load gs.packages language with
    | .ok _ => none
    | .error e => some e

def supports (gs : Grammars) (language : String) : Bool := (gs.loadError? language).isNone

/-- What a text yields. The tree is the one that the grammar builds; there is nothing if it is too
deep to be walked. -/
def findings (gs : Grammars) (file language : String) (text : List Char) (tree : Tree.Node) :
    Option Findings :=
  match gs.loadError? language with
  | some e => some (.failed file language e.message)
  | none => if gs.walks tree then some (Tree.findings (.ofText file language text) tree) else none

end Grammars

end CodeAtlas
