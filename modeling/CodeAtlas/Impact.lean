import CodeAtlas.Graph

/-!
# Impacts

The impact of a node is the set of nodes affected when it changes, rated by
their number.
-/

namespace CodeAtlas

inductive Severity
  | high
  | medium
  | low
  deriving DecidableEq, Repr

namespace Severity

def text : Severity → String
  | high => "high"
  | medium => "medium"
  | low => "low"

/-- The place in a report: the highest first. -/
def rank : Severity → Nat
  | high => 0
  | medium => 1
  | low => 2

def lowMax : Int := 5

def mediumMax : Int := 20

def ofCount (count : Int) : Severity :=
  if count ≤ lowMax then low else if count ≤ mediumMax then medium else high

end Severity

structure Impact where
  target : String
  affected : List String
  severity : Severity
  deriving DecidableEq, Repr

namespace Impact

/-- The impact of a node, given the direct dependents of each node. -/
def ofTarget (dependents : Graph) (target : String) : Impact :=
  let affected := dependents.affectedBy target
  { target, affected, severity := .ofCount affected.length }

/-- Order of a report: the more severe first, then the one that affects more, then by name. -/
def le (a b : Impact) : Bool :=
  if a.severity.rank ≠ b.severity.rank then a.severity.rank < b.severity.rank
  else if a.affected.length ≠ b.affected.length then b.affected.length < a.affected.length
  else a.target ≤ b.target

end Impact

/-- The impact of every node that something depends on. -/
def Graph.impacts (g : Graph) : List Impact :=
  let dependents := g.reverse
  (((dependents.entries.filter fun p => !p.2.isEmpty).map fun p =>
    Impact.ofTarget dependents p.1)).mergeSort Impact.le

/-- The first entries up to a limit; a negative limit leaves out that many at the end. -/
def firstEntries {α : Type} (limit : Int) (entries : List α) : List α :=
  if 0 ≤ limit then entries.take limit.toNat else entries.take (entries.length - (-limit).toNat)

/-- How many impacts a report shows. -/
def displayLimit : Int := 20

end CodeAtlas
