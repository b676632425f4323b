import CodeAtlas.Path

/-!
# Languages

The languages of source files, known by the suffixes of their names. A suffix
counts in any letter case.
-/

namespace CodeAtlas

inductive Language
  | javascript
  | typescript
  | tsx
  | terraform
  deriving DecidableEq, Repr

namespace Language

def all : List Language := [javascript, typescript, tsx, terraform]

def name : Language → String
  | javascript => "javascript"
  | typescript => "typescript"
  | tsx => "tsx"
  | terraform => "terraform"

def suffixes : Language → List String
  | javascript => [".js", ".jsx", ".mjs", ".cjs"]
  | typescript => [".ts", ".mts", ".cts"]
  | tsx => [".tsx"]
  | terraform => [".tf"]

/-- The languages that a requested name stands for, in any letter case. -/
def requested (name : String) : List Language :=
  match String.ofList (name.toList.map Char.toLower) with
  | "javascript" => [javascript]
  | "typescript" => [typescript, tsx]
  | "tsx" => [tsx]
  | "terraform" | "hcl" => [terraform]
  | _ => []

/-- The languages that a list of names asks for, each once. No names ask for all; names that are
not known ask for nothing. -/
def expand (names : List String) : List Language :=
  if names.isEmpty then all else (names.flatMap requested).eraseDups

def ofPath (p : Path) : Option Language := all.find? fun l => l.suffixes.contains p.suffix

/-- What language servers call the language of a file. -/
def serverId? (p : Path) : Option String :=
  match p.suffix with
  | ".js" | ".mjs" | ".cjs" => some "javascript"
  | ".jsx" => some "javascriptreact"
  | ".ts" | ".mts" | ".cts" => some "typescript"
  | ".tsx" => some "typescriptreact"
  | ".tf" => some "terraform"
  | _ => none

/-- Whether a language describes infrastructure. -/
def isInfrastructure (name : String) : Bool := name == terraform.name

end Language

end CodeAtlas
