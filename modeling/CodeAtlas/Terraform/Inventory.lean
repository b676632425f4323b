import CodeAtlas.Graph
import CodeAtlas.Symbol
import CodeAtlas.Terraform.Manifest

/-!
# Inventories

An inventory is the merge of the manifests of a project. A record takes the
place of an earlier one with the same id. From an inventory follow the
dependency graph of resources, data sources and modules, and which of them use a
variable.
-/

namespace CodeAtlas.Terraform

open CodeAtlas.Text

structure Inventory where
  resources : Table Resource := ∅
  dataSources : Table DataSource := ∅
  modules : Table ModuleCall := ∅
  variableDecls : Table VariableDecl := ∅
  outputs : Table OutputValue := ∅
  providers : List Provider := []
  locals : Table LocalValue := ∅
  errors : Table (List String) := ∅
  deriving DecidableEq

namespace Inventory

/-- Merges a manifest. A file without problems leaves no trace among the errors. -/
def add (v : Inventory) (m : Manifest) : Inventory where
  resources := v.resources.insertAll (m.resources.map fun r => (r.id, r))
  dataSources := v.dataSources.insertAll (m.dataSources.map fun d => (d.id, d))
  modules := v.modules.insertAll (m.modules.map fun c => (c.id, c))
  variableDecls := v.variableDecls.insertAll (m.variableDecls.map fun d => (d.name, d))
  outputs := v.outputs.insertAll (m.outputs.map fun o => (o.name, o))
  locals := v.locals.insertAll (m.locals.map fun l => (l.name, l))
  providers := v.providers ++ m.providers
  errors :=
    if m.errors.isEmpty then v.errors
    else v.errors.insert m.file ((v.errors.get? m.file).getD [] ++ m.errors)

/-- Whether there is nothing to show. Providers and local values alone do not count. -/
def isEmpty (v : Inventory) : Bool :=
  v.resources.isEmpty && v.dataSources.isEmpty && v.modules.isEmpty &&
    v.variableDecls.isEmpty && v.outputs.isEmpty

def resourceIds (v : Inventory) : List String := v.resources.sorted.map Prod.fst

/-- The node that a mention stands for: a resource, module or data source without the attribute
asked of it. Variables, local values and names without a dot stand for none. -/
def nodeOf? (mention : String) : Option String :=
  let cs := mention.toList
  if !cs.contains '.' || "var.".toList.isPrefixOf cs || "local.".toList.isPrefixOf cs then none
  else
    let parts := pieces '.' cs
    if parts.head? = some "data".toList then
      if 3 ≤ parts.length then some (String.ofList (joinPieces ['.'] (parts.take 3))) else none
    else some (String.ofList (joinPieces ['.'] (parts.take 2)))

/-- The nodes that the mentions of a node stand for, ascending, without the node itself. -/
def dependenciesOf (id : String) (mentions : List String) : List String :=
  (((mentions.filterMap nodeOf?).filter (· != id)).eraseDups).mergeSort fun a b => decide (a ≤ b)

/-- What each node mentions: resources, data sources, then modules, each by ascending id. -/
def mentionsByNode (v : Inventory) : List (String × List String) :=
  (v.resources.sorted.map fun p => (p.1, p.2.dependencies ++ p.2.references)) ++
  (v.dataSources.sorted.map fun p => (p.1, p.2.references)) ++
  (v.modules.sorted.map fun p => (p.1, p.2.references))

/-- What each node depends on; nodes that depend on nothing are left out. -/
def dependencyGraph (v : Inventory) : Graph :=
  Table.ofPairs ((v.mentionsByNode.map fun p => (p.1, dependenciesOf p.1 p.2)).filter
    fun p => !p.2.isEmpty)

/-- The resources, then the modules, that mention a variable. -/
def usersOf (v : Inventory) (name : String) : List String :=
  let mention := "var." ++ name
  ((v.resources.sorted.filter fun p => p.2.references.contains mention).map Prod.fst) ++
  ((v.modules.sorted.filter fun p => p.2.references.contains mention).map Prod.fst)

/-- For each variable its users. -/
def variableUsage (v : Inventory) : List (String × List String) :=
  v.variableDecls.sorted.map fun p => (p.1, v.usersOf p.1)

/-- The inventory with the users of each variable filled in. -/
def withUsage (v : Inventory) : Inventory :=
  { v with
    variableDecls := v.variableDecls.mapValues fun name d => { d with usedBy := v.usersOf name } }

end Inventory

def Resource.toValue (r : Resource) : Value :=
  .record [("id", .text r.id), ("type", .text r.type), ("name", .text r.name),
    ("provider", .text r.provider), ("file", .text r.file), ("line", .integer r.line),
    ("dependencies", .texts r.dependencies), ("references", .texts r.references)]

def DataSource.toValue (d : DataSource) : Value :=
  .record [("id", .text d.id), ("type", .text d.type), ("name", .text d.name),
    ("file", .text d.file), ("line", .integer d.line), ("references", .texts d.references)]

def ModuleCall.toValue (m : ModuleCall) : Value :=
  .record [("id", .text m.id), ("name", .text m.name), ("source", .text m.source),
    ("file", .text m.file), ("line", .integer m.line),
    ("variables", .record (m.arguments.entries.map fun p => (p.1, .text p.2))),
    ("references", .texts m.references)]

def VariableDecl.toValue (d : VariableDecl) : Value :=
  .record [("name", .text d.name), ("file", .text d.file), ("line", .integer d.line),
    ("type", .ofOption d.type), ("default", .ofOption d.default),
    ("description", .ofOption d.description), ("used_by", .texts d.usedBy)]

def OutputValue.toValue (o : OutputValue) : Value :=
  .record [("name", .text o.name), ("value", .text o.value), ("file", .text o.file),
    ("line", .integer o.line), ("description", .ofOption o.description),
    ("references", .texts o.references)]

def Provider.toValue (p : Provider) : Value :=
  .record [("name", .text p.name), ("file", .text p.file), ("line", .integer p.line),
    ("alias", .ofOption p.aliasName), ("region", .ofOption p.region)]

def LocalValue.toValue (l : LocalValue) : Value :=
  .record [("name", .text l.name), ("value", .text l.value), ("file", .text l.file),
    ("line", .integer l.line), ("references", .texts l.references)]

/-- A table as a record, by ascending keys. -/
def sortedRecord {α : Type} (f : α → Value) (t : Table α) : Value :=
  .record (t.sorted.map fun p => (p.1, f p.2))

def Inventory.toValue (v : Inventory) : Value :=
  .record [("resources", sortedRecord Resource.toValue v.resources),
    ("data_sources", sortedRecord DataSource.toValue v.dataSources),
    ("modules", sortedRecord ModuleCall.toValue v.modules),
    ("variables", sortedRecord VariableDecl.toValue v.variableDecls),
    ("outputs", sortedRecord OutputValue.toValue v.outputs),
    ("providers", .list (v.providers.map Provider.toValue)),
    ("locals", sortedRecord LocalValue.toValue v.locals),
    ("errors", .record (v.errors.entries.map fun p => (p.1, .texts p.2)))]

end CodeAtlas.Terraform
