import CodeAtlas.Symbol
import CodeAtlas.Tree.Source

/-!
# Walking a tree

One pass over the named nodes of a tree, from the top and the left. Each node
yields declarations, call sites, imports and problems, and says how the pass
goes on below it. What is around a node, its classes and its function, is handed
down as a context. Only the list of declarations depends on what was met before:
of several with the same id the first is kept.
-/

namespace CodeAtlas.Tree

open CodeAtlas.Text

inductive Category
  | function
  | classDecl
  | interface
  | typeAlias
  | call
  | importStatement
  | exportStatement
  | other
  deriving DecidableEq, Repr

namespace Category

def ofType : String → Category
  | "function_declaration" | "generator_function_declaration" | "function_expression" | "function"
  | "generator_function" | "arrow_function" | "method_definition" => function
  | "class_declaration" | "abstract_class_declaration" | "class" => classDecl
  | "interface_declaration" => interface
  | "type_alias_declaration" => typeAlias
  | "call_expression" => call
  | "import_statement" => importStatement
  | "export_statement" => exportStatement
  | _ => other

def text : Category → String
  | function => "function"
  | classDecl => "class"
  | interface => "interface"
  | typeAlias => "type_alias"
  | call => "call"
  | importStatement => "import"
  | exportStatement => "export"
  | other => "other"

end Category

/-- What is around a node. -/
structure Context where
  /-- Names of the classes whose bodies are around, the innermost first. -/
  classes : List String := []
  /-- The id of the function around, if no class body comes in between. -/
  caller : Option String := none
  deriving DecidableEq, Repr

namespace Context

def currentClass? (ctx : Context) : Option String := ctx.classes.head?

def pushClass (ctx : Context) (name : String) : Context := ⟨name :: ctx.classes, none⟩

def enter (ctx : Context) (id : String) : Context := { ctx with caller := some id }

end Context

/-- How far up an export or the comment in front of a declaration is looked for. -/
def searchDepth : Nat := 3

/-- Whether an export statement is among the nearest nodes above. -/
def isExported (p : Place) : Bool :=
  (p.above.take searchDepth).any fun f => f.parent.type == "export_statement"

/-- Statements around a declaration that a comment can stand in front of. -/
def wrapperTypes : List String :=
  ["variable_declarator", "lexical_declaration", "variable_declaration", "export_statement",
    "field_definition", "public_field_definition"]

/-- The outermost of at most `depth` wrappers around a place. -/
def anchor : (depth : Nat) → Place → Place
  | 0, p => p
  | depth + 1, p =>
    match p.up? with
    | some q => if wrapperTypes.contains q.node.type then anchor depth q else p
    | none => p

/-- The text of the nearest documentation comment among the comments in front of a declaration. -/
def docstring (s : Source) (p : Place) : Option String :=
  let comments := (anchor searchDepth p).before.takeWhile fun n => n.type == "comment"
  match (comments.map s.chars).find? ("/**".toList.isPrefixOf ·) with
  | some raw =>
    let doc := cleanDocComment raw
    if doc.isEmpty then none else some (String.ofList doc)
  | none => none

/-- The declaration of a node. -/
def declaration (s : Source) (p : Place) (name : String) (kind : SymbolKind) (signature : String) :
    Symbol where
  id := symbolId s.file name (s.line p.node)
  name := name
  kind := kind
  file := s.file
  line := s.line p.node
  endLine := s.endLine p.node
  exported := isExported p
  signature := signature
  docstring := docstring s p

/-- The name of a function expression by what it is bound to: a variable, or a field of a class. -/
def boundName? (s : Source) (p : Place) (ctx : Context) : Option (String × SymbolKind) :=
  match p.parent? with
  | none => none
  | some parent =>
    if parent.type == "variable_declarator" then
      match parent.child? "name" with
      | some name => if name.type == "identifier" then some (s.text name, .function) else none
      | none => none
    else if parent.type == "field_definition" || parent.type == "public_field_definition" then
      match ctx.currentClass?, (parent.child? "property").or (parent.child? "name") with
      | some owner, some name => some (owner ++ "." ++ s.text name, .method)
      | _, _ => none
    else none

def ownName? (s : Source) (n : Node) : Option (String × SymbolKind) :=
  (n.child? "name").map fun name => (s.text name, .function)

/-- The name and kind under which a function is declared. Methods of object literals and functions
without a name are not declared. -/
def functionName? (s : Source) (p : Place) (ctx : Context) : Option (String × SymbolKind) :=
  if p.node.type == "method_definition" then
    match p.node.child? "name", ctx.currentClass? with
    | some name, some owner =>
      if p.parentType? = some "class_body" then some (owner ++ "." ++ s.text name, .method)
      else none
    | _, _ => none
  else if p.node.type == "function_declaration" ||
      p.node.type == "generator_function_declaration" then
    ownName? s p.node
  else (boundName? s p ctx).or (ownName? s p.node)

/-- Marks the signature of a function that draws markup. -/
def componentMark : String := "[component] "

def functionSignature (s : Source) (n : Node) : String :=
  let signature := s.signature n
  if ((n.child? "body").map Node.hasMarkup).getD false then componentMark ++ signature
  else signature

/-- The name of a class: its own, or that of the variable it is bound to. -/
def className? (s : Source) (p : Place) : Option String :=
  let bound :=
    if p.parentType? = some "variable_declarator" then p.parent?.bind (·.child? "name") else none
  ((p.node.child? "name").or bound).map s.text

def isSelf (n : Node) : Bool := n.type == "this" || n.type == "super"

/-- The key of a name or a member access. A member of the object itself belongs to the class
around. -/
def accessKey (s : Source) (n : Node) (ctx : Context) : String :=
  let plain := String.ofList (plainAccess (s.chars n))
  if n.type == "identifier" then s.text n
  else
    match n.child? "object", n.child? "property" with
    | some receiver, some prop =>
      if isSelf receiver then
        match ctx.currentClass? with
        | some "" | none => s.text prop
        | some owner => owner ++ "." ++ s.text prop
      else plain
    | _, _ => plain

/-- The keys of a callee. A method of an unknown receiver is recorded as written and by its name
alone. -/
def calleeKeys (s : Source) (f : Node) (ctx : Context) : List String :=
  if f.type == "identifier" then [s.text f]
  else if f.type == "member_expression" then
    match f.child? "property" with
    | none => []
    | some prop =>
      let key := accessKey s f ctx
      if ((f.child? "object").map isSelf).getD false then [key]
      else [key, wildcardMark ++ s.text prop]
  else []

/-- The key of an argument that can be a function. -/
def callbackKey? (s : Source) (ctx : Context) (arg : Node) : Option String :=
  if arg.type == "identifier" || arg.type == "member_expression" then
    let key := accessKey s arg ctx
    if key == "" || isValueName key then none else some key
  else none

/-- The import of a call that loads a module by a fixed name. -/
def requireImport? (s : Source) (p : Place) : Option Import := do
  let f ← p.node.child? "function"
  if (f.type == "identifier" && s.text f == "require") || f.type == "import" then
    let arguments ← p.node.child? "arguments"
    match arguments.namedChildren with
    | [arg] =>
      if arg.type == "string" then
        let name := do
          let parent ← p.parent?
          if parent.type == "variable_declarator" then
            let name ← parent.child? "name"
            if name.type == "identifier" then some (s.text name) else none
          else none
        some { source := s.stringValue arg, moduleAlias := name, line := s.line p.node }
      else none
    | _ => none
  else none

/-- The call sites of a call: its callee, then the arguments that can be functions. -/
def callReferences (s : Source) (n : Node) (ctx : Context) : List Reference :=
  let callees :=
    match n.child? "function" with
    | none => []
    | some f =>
      (calleeKeys s f ctx).map fun key =>
        { key, file := s.file, line := s.line n, kind := .call, caller := ctx.caller }
  let callbacks :=
    match n.child? "arguments" with
    | none => []
    | some arguments =>
      if arguments.type == "arguments" then
        arguments.namedChildren.filterMap fun arg =>
          (callbackKey? s ctx arg).map fun key =>
            { key, file := s.file, line := s.line arg, kind := .callback, caller := ctx.caller }
      else []
  callees ++ callbacks

/-- The imported or exported names of a list in braces. -/
def specifiers (s : Source) (list : Node) (type : String) : List ImportedName :=
  (list.namedChildren.filter fun n => n.type == type).filterMap fun n =>
    (n.child? "name").map fun name =>
      { name := s.text name, localName := (n.child? "alias").map s.text }

/-- Adds a part of an import clause: the default, everything under one name, or a list. -/
def addClausePart (s : Source) (i : Import) (part : Node) : Import :=
  if part.type == "identifier" then
    { i with names := i.names ++ [{ name := "default", localName := some (s.text part) }] }
  else if part.type == "namespace_import" then
    { i with moduleAlias := (part.childOfType? "identifier").map s.text, wildcard := true }
  else if part.type == "named_imports" then
    { i with names := i.names ++ specifiers s part "import_specifier" }
  else i

/-- Adds a child of an import statement. -/
def addImportPart (s : Source) (i : Import) (child : Node) : Import :=
  if child.type == "import_clause" then child.namedChildren.foldl (addClausePart s) i
  else if child.type == "import_require_clause" then
    let name := (child.child? "name").or (child.childOfType? "identifier")
    let source := (child.child? "source").or (child.childOfType? "string")
    { i with
      source := (source.map s.stringValue).getD i.source
      moduleAlias := name.map s.text }
  else i

/-- The import of an import statement, unless it names no module. -/
def importOf? (s : Source) (n : Node) : Option Import :=
  let start : Import :=
    { source := ((n.child? "source").map s.stringValue).getD "", line := s.line n }
  let i := n.namedChildren.foldl (addImportPart s) start
  if i.source == "" then none else some i

/-- Adds a child of a statement that exports from another module. -/
def addExportPart (s : Source) (i : Import) (child : Node) : Import :=
  if child.type == "*" then { i with wildcard := true }
  else if child.type == "namespace_export" then
    { i with wildcard := true, moduleAlias := (child.childOfType? "identifier").map s.text }
  else if child.type == "export_clause" then
    { i with names := i.names ++ specifiers s child "export_specifier" }
  else i

/-- The import of a statement that exports from another module. -/
def exportImport? (s : Source) (n : Node) : Option Import :=
  (n.child? "source").map fun source =>
    n.children.foldl (addExportPart s) { source := s.stringValue source, line := s.line n }

/-- How the pass goes on below a node. -/
inductive Descent
  | stop
  | all (ctx : Context)
  /-- Into a class: the child at `body` has the context of the class, the others that around. -/
  | classBody (body : Option Nat) (inside outside : Context)
  deriving DecidableEq, Repr

/-- The context for the child at an index, unless the pass leaves it out. -/
def Descent.contextAt (d : Descent) (i : Nat) : Option Context :=
  match d with
  | stop => none
  | all ctx => some ctx
  | classBody body inside outside => some (if body = some i then inside else outside)

/-- What one node yields. -/
structure Yield where
  symbol : Option Symbol := none
  references : List Reference := []
  imports : List Import := []
  errors : List String := []
  descent : Descent

def functionYield (s : Source) (p : Place) (ctx : Context) : Yield :=
  match functionName? s p ctx with
  | none => { descent := .all ctx }
  | some (name, kind) =>
    let symbol := declaration s p name kind (functionSignature s p.node)
    { symbol := some symbol, descent := .all (ctx.enter symbol.id) }

def classYield (s : Source) (p : Place) (ctx : Context) : Yield :=
  match className? s p with
  | none =>
    { errors := ["line " ++ toString (s.line p.node) ++ ": class without a name skipped"]
      descent := .stop }
  | some name =>
    { symbol := some (declaration s p name .classDecl (s.signature p.node))
      descent := .classBody (p.node.childIndex? "body") (ctx.pushClass name) ctx }

/-- A declaration of a type, which nothing below it adds to. -/
def typeYield (s : Source) (p : Place) (kind : SymbolKind) : Yield :=
  { symbol := (p.node.child? "name").map fun name =>
      declaration s p (s.text name) kind (s.signature p.node)
    descent := .stop }

def callYield (s : Source) (p : Place) (ctx : Context) : Yield :=
  match requireImport? s p with
  | some i => { imports := [i], descent := .all ctx }
  | none => { references := callReferences s p.node ctx, descent := .all ctx }

/-- What a node yields in its surroundings. -/
def yieldOf (s : Source) (p : Place) (ctx : Context) : Yield :=
  match Category.ofType p.node.type with
  | .function => functionYield s p ctx
  | .classDecl => classYield s p ctx
  | .interface => typeYield s p .interface
  | .typeAlias => typeYield s p .typeAlias
  | .call => callYield s p ctx
  | .importStatement => { imports := (importOf? s p.node).toList, descent := .stop }
  | .exportStatement => { imports := (exportImport? s p.node).toList, descent := .all ctx }
  | .other => { descent := .all ctx }

/-- What the pass has recorded. -/
structure Notes where
  symbols : List Symbol := []
  references : List Reference := []
  imports : List Import := []
  errors : List String := []

namespace Notes

def record (notes : Notes) (y : Yield) : Notes where
  symbols := y.symbol.elim notes.symbols (addSymbol notes.symbols)
  references := notes.references ++ y.references
  imports := notes.imports ++ y.imports
  errors := notes.errors ++ y.errors

end Notes

mutual

/-- The notes after a node and all that the pass meets below it. -/
def visit (s : Source) (above : List Frame) (ctx : Context) (notes : Notes) : Node → Notes
  | n@⟨_, _, _, _, _, _, children⟩ =>
    let y := yieldOf s ⟨n, above⟩ ctx
    visitChildren s n above y.descent [] (notes.record y) children

/-- The notes after some children of a node. `before` holds those already passed. -/
def visitChildren (s : Source) (parent : Node) (above : List Frame) (descent : Descent)
    (before : List Node) (notes : Notes) : List Node → Notes
  | [] => notes
  | n :: ns =>
    let notes :=
      match if n.named then descent.contextAt before.length else none with
      | some ctx => visit s (⟨parent, before⟩ :: above) ctx notes n
      | none => notes
    visitChildren s parent above descent (n :: before) notes ns

end

/-- The problem of a tree with errors, at its first bad node. -/
def errorNote (s : Source) (root : Node) : List String :=
  if root.hasError then
    let bad := (Node.firstBad? [root]).getD root
    ["syntax error near line " ++ toString (s.line bad)]
  else []

/-- What a file with a tree yields. -/
def findings (s : Source) (root : Node) : Findings :=
  let notes := visit s [] {} { errors := errorNote s root } root
  { file := s.file
    language := s.language
    symbols := notes.symbols
    references := notes.references
    imports := notes.imports
    errors := notes.errors
    lineCount := s.lines.length }

end CodeAtlas.Tree
