import CodeAtlas.Graph
import CodeAtlas.Index

/-!
# Resolution of call sites

A call site is resolved by the names of the declarations in the index. A written
name stands for one declaration, of the same file if possible. A method of an
unknown owner stands for every method of that name. From this follow the call
graph and the call sites that lead nowhere; the import graph stands beside them.
-/

namespace CodeAtlas

structure Resolver where
  /-- Declarations under their full name. -/
  byName : Table (List Symbol) := ∅
  /-- Methods under their name without owner. -/
  methods : Table (List Symbol) := ∅
  deriving DecidableEq

namespace Resolver

def enter (r : Resolver) (s : Symbol) : Resolver where
  byName := r.byName.push s.name s
  methods := if s.kind = .method then r.methods.push s.shortName s else r.methods

/-- The declarations of an index by ascending id. -/
def ordered (x : Index) : List Symbol :=
  x.symbols.values.mergeSort fun a b => decide (a.id ≤ b.id)

def ofIndex (x : Index) : Resolver := (ordered x).foldl enter {}

/-- The declarations that a call site can mean. -/
def resolve (r : Resolver) (ref : Reference) : List Symbol :=
  if ref.isWildcard then
    (r.methods.get? (String.ofList (ref.key.toList.drop wildcardMark.length))).getD []
  else
    let candidates := (r.byName.get? ref.key).getD []
    match candidates.filter fun s => s.file = ref.file with
    | s :: _ => [s]
    | [] => candidates.take 1

end Resolver

namespace Index

/-- Order of call sites by file and line. -/
def siteLe (a b : Reference) : Bool := if a.file = b.file then a.line ≤ b.line else a.file ≤ b.file

/-- The calls of a call site: names of its caller and of everything it can mean. A site outside of
functions, of an unknown kind or with an unknown caller has none. -/
def callsOf (x : Index) (resolver : Resolver) (ref : Reference) : List (String × String) :=
  if ref.kind.isKnown then
    match ref.caller.bind x.symbols.get? with
    | some caller => (resolver.resolve ref).map fun s => (caller.name, s.name)
    | none => []
  else []

/-- The call sites in the order in which the call graph takes them. -/
def sites (x : Index) : List Reference := x.allReferences.mergeSort siteLe

/-- For each caller the names it calls, in the order of the call sites. -/
def callGraph (x : Index) : Graph :=
  let resolver := Resolver.ofIndex x
  (x.sites.flatMap (x.callsOf resolver)).foldl
    (fun g (caller, callee) => g.pushNew caller callee) ∅

/-- The call sites that can mean no known declaration. -/
def unresolved (x : Index) : List Reference :=
  let resolver := Resolver.ofIndex x
  x.allReferences.filter fun ref => (resolver.resolve ref).isEmpty

/-- For each file the modules it imports, as written; files without imports are left out. -/
def importGraph (x : Index) : List (String × List String) :=
  (x.files.sorted.map fun (path, entry) =>
    (path, (entry.imports.map Import.source).eraseDups)).filter fun p => !p.2.isEmpty

end Index

end CodeAtlas
