/-!
# Syntax trees

A node of a concrete syntax tree spans a range of bytes and knows under which
fields its parent holds it. Trees are error tolerant: a part that cannot be read
is a node of its own type, and a part that is expected and not there is a node
marked as missing.
-/

namespace CodeAtlas.Tree

structure Node where
  type : String
  start : Nat
  stop : Nat
  /-- Named nodes are those of the grammar's rules; the others are its fixed tokens. -/
  named : Bool
  missing : Bool
  /-- The fields under which the parent holds this node. -/
  fields : List String
  children : List Node
  deriving Inhabited

namespace Node

def namedChildren (n : Node) : List Node := n.children.filter Node.named

/-- The first child that is held under a field. -/
def child? (n : Node) (field : String) : Option Node :=
  n.children.find? fun c => c.fields.contains field

/-- Where the first child stands that is held under a field. -/
def childIndex? (n : Node) (field : String) : Option Nat :=
  n.children.findIdx? fun c => c.fields.contains field

/-- The first named child of a type. -/
def childOfType? (n : Node) (type : String) : Option Node :=
  n.namedChildren.find? fun c => c.type == type

/-- A part that could not be read, or was expected and is not there. -/
def isBad (n : Node) : Bool := n.type == "ERROR" || n.missing

mutual

/-- Whether a node or something below it is bad. -/
def hasError : Node → Bool
  | n@⟨_, _, _, _, _, _, children⟩ => n.isBad || anyError children

def anyError : List Node → Bool
  | [] => false
  | n :: ns => hasError n || anyError ns

end

/-- How many nodes a forest has. -/
def count : List Node → Nat
  | [] => 0
  | ⟨_, _, _, _, _, _, children⟩ :: rest => 1 + count children + count rest

theorem count_append (a b : List Node) : count (a ++ b) = count a + count b := by
  induction a with
  | nil => simp [count]
  | cons n rest ih =>
    obtain ⟨_, _, _, _, _, _, children⟩ := n
    simp only [List.cons_append, count, ih]
    omega

/-- The first bad node that a stack of nodes leads to. The children of a node come before what is
below it on the stack; below a node without errors nothing is looked for. -/
def firstBad? (stack : List Node) : Option Node :=
  match stack with
  | [] => none
  | n :: rest =>
    if n.isBad then some n
    else if n.hasError then firstBad? (n.children ++ rest)
    else firstBad? rest
termination_by count stack
decreasing_by
  all_goals
    obtain ⟨_, _, _, _, _, _, children⟩ := n
    simp only [count_append, count]
    omega

/-- Node types that draw markup. -/
def markupTypes : List String := ["jsx_element", "jsx_self_closing_element", "jsx_fragment"]

mutual

/-- Whether a node is markup or holds some among its named descendants. -/
def hasMarkup : Node → Bool
  | ⟨type, _, _, _, _, _, children⟩ => markupTypes.contains type || anyMarkup children

def anyMarkup : List Node → Bool
  | [] => false
  | n :: ns => (n.named && hasMarkup n) || anyMarkup ns

end

end Node

/-- A parent with the children in front of a node, the nearest first. -/
structure Frame where
  parent : Node
  before : List Node

/-- A node with its surroundings, from the inside out. -/
structure Place where
  node : Node
  above : List Frame

namespace Place

def root (n : Node) : Place := ⟨n, []⟩

def parent? (p : Place) : Option Node := p.above.head?.map Frame.parent

def parentType? (p : Place) : Option String := p.parent?.map Node.type

/-- The place of the parent. -/
def up? (p : Place) : Option Place :=
  match p.above with
  | [] => none
  | f :: rest => some ⟨f.parent, rest⟩

/-- The siblings in front, the nearest first. -/
def before (p : Place) : List Node := (p.above.head?.map Frame.before).getD []

end Place

end CodeAtlas.Tree
