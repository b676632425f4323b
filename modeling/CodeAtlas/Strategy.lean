import CodeAtlas.Attribution
import CodeAtlas.Grammar
import CodeAtlas.Language
import CodeAtlas.Terraform.Manifest

/-!
# Strategies

A file is read by the first strategy that succeeds. One that refuses leaves its
reason, and when all refuse the file yields the reasons as its error. Anything
else that goes wrong ends the attempt.
-/

namespace CodeAtlas

/-- What a file yields: source code or infrastructure. -/
inductive FileResult
  | code (f : Findings)
  | infrastructure (m : Terraform.Manifest)

/-- A file of a language that yields nothing but an error. -/
def FileResult.failed (file language error : String) : FileResult :=
  if Language.isInfrastructure language then .infrastructure (.failed file error)
  else .code (.failed file language error)

inductive Attempt (ε : Type)
  | success (r : FileResult)
  | refusal (reason : String)
  | crash (e : ε)

/-- A way to read a file, which may change a state. -/
structure Strategy (σ ε : Type) where
  name : String
  run : σ → σ × Attempt ε

namespace Strategy

variable {σ ε : Type}

/-- The error of a file for which there is no strategy. -/
def noStrategy : String := "no extraction strategy available"

/-- Tries strategies in turn. `refusals` holds the reasons so far. -/
def tryAll (file language : String) : List (Strategy σ ε) → List String → σ →
    σ × Except ε FileResult
  | [], refusals, s =>
    let error := if refusals.isEmpty then noStrategy else "; ".intercalate refusals
    (s, .ok (.failed file language error))
  | strategy :: rest, refusals, s =>
    match strategy.run s with
    | (s, .success r) => (s, .ok r)
    | (s, .crash e) => (s, .error e)
    | (s, .refusal reason) =>
      tryAll file language rest (refusals ++ [strategy.name ++ ": " ++ reason]) s

/-- Reads a file by its tree, unless that is too deep. -/
def tree (gs : Grammars) (tooDeep : ε) (file language : String) (text : List Char)
    (root : Tree.Node) : Strategy σ ε where
  name := "tree-sitter"
  run s :=
    if gs.supports language then
      match gs.findings file language text root with
      | some f => (s, .success (.code f))
      | none => (s, .crash tooDeep)
    else (s, .refusal (file ++ ": no tree-sitter grammar for " ++ language))

/-- Reads a configuration file by its text. -/
def blockText (file : String) (text : List Char) : Strategy σ ε where
  name := "hcl-text"
  run s := (s, .success (.infrastructure (.ofText text file)))

end Strategy

/-- The findings of a file whose tree yields `walked` when a server gives its outline. -/
def findingsAround (walked : Findings) (file language : String) (lines : List (List Char))
    (outline : List Server.Outline) : Findings :=
  let symbols := Attribution.symbols outline walked file lines
  { file, language, symbols
    references := Attribution.reattribute walked.references symbols
    imports := walked.imports
    errors := walked.errors
    lineCount := walked.lineCount }

/-- The findings of a file when a server gives its outline. Call sites and imports come from the
tree, if there is one; there is nothing if it is too deep to be walked. -/
def outlinedFindings (gs : Grammars) (file language : String) (text : List Char)
    (root : Tree.Node) (outline : List Server.Outline) : Option Findings :=
  let lines := Text.sourceLines text
  let walked : Option Findings :=
    if gs.supports language then gs.findings file language text root
    else some { file, language, lineCount := lines.length }
  walked.map fun walked => findingsAround walked file language lines outline

/-- The manifest of a file when a server gives its outline: the blocks at the lines of the
outermost entries. -/
def outlinedManifest (file : String) (text : List Char) (outline : List Server.Outline) :
    Terraform.Manifest :=
  .ofAnchors text file (outline.map fun o => (Attribution.blockName o.name, o.line))

end CodeAtlas
