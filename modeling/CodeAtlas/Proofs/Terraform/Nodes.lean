import CodeAtlas.Proofs.Order
import CodeAtlas.Proofs.Terraform.Dependencies
import Mathlib.Data.List.Sort
import Mathlib.Data.String.Basic

/-!
# Nodes and edges of an inventory

Resources, data sources and modules are the nodes. If no id belongs to two kinds,
a node has an entry in the dependency graph exactly if something it mentions
stands for another node, and its entry lists those nodes in strictly ascending
order. A node that a mention stands for stands for itself. Since an ascending list
is known by its members, the entries follow from what each node mentions, in
whatever order and however often it does.
-/

namespace CodeAtlas.Terraform.Inventory

open CodeAtlas.Text

/-- How many parts of a mention name its node: a data source has its type and its name behind the
keyword. -/
def nodeParts (parts : List (List Char)) : Nat :=
  if parts.head? = some "data".toList then 3 else 2

/-- A mention stands for the node that its first parts name. -/
structure StandsFor (mention node : String) : Prop where
  dotted : '.' ∈ mention.toList
  not_variable : ¬"var.".toList <+: mention.toList
  not_local : ¬"local.".toList <+: mention.toList
  enough : nodeParts (pieces '.' mention.toList) ≤ (pieces '.' mention.toList).length
  first : node.toList = joinPieces ['.']
    ((pieces '.' mention.toList).take (nodeParts (pieces '.' mention.toList)))

theorem two_le_length_pieces_iff (cs : List Char) : 2 ≤ (pieces '.' cs).length ↔ '.' ∈ cs := by
  rw [length_pieces, ← List.count_pos_iff]
  omega

/-- With a dot there are two parts, so only a data source can have too few. -/
theorem nodeName?_of_two_le {parts : List (List Char)} (htwo : 2 ≤ parts.length) :
    (if parts.head? = some "data".toList then
      if 3 ≤ parts.length then some (String.ofList (joinPieces ['.'] (parts.take 3))) else none
    else some (String.ofList (joinPieces ['.'] (parts.take 2)))) =
      if nodeParts parts ≤ parts.length then
        some (String.ofList (joinPieces ['.'] (parts.take (nodeParts parts))))
      else none := by
  by_cases hdata : parts.head? = some "data".toList
  · rw [if_pos hdata, nodeParts, if_pos hdata]
  · rw [if_neg hdata, nodeParts, if_neg hdata, if_pos htwo]

theorem nodeOf?_eq_some_iff (mention node : String) :
    nodeOf? mention = some node ↔ StandsFor mention node := by
  have hout : (!mention.toList.contains '.' || "var.".toList.isPrefixOf mention.toList ||
      "local.".toList.isPrefixOf mention.toList) = true ↔
      ¬('.' ∈ mention.toList ∧ ¬"var.".toList <+: mention.toList ∧
        ¬"local.".toList <+: mention.toList) := by
    simp only [Bool.or_eq_true, Bool.not_eq_true', List.contains_eq_mem, decide_eq_false_iff_not,
      List.isPrefixOf_iff_prefix]
    tauto
  constructor
  · intro h
    unfold nodeOf? at h
    dsimp only at h
    split at h
    next => cases h
    next hkept =>
      obtain ⟨hdot, hvar, hlocal⟩ := not_not.mp (mt hout.mpr hkept)
      rw [nodeName?_of_two_le ((two_le_length_pieces_iff _).mpr hdot)] at h
      split at h
      next henough =>
        obtain rfl := Option.some.inj h
        exact ⟨hdot, hvar, hlocal, henough, String.toList_ofList⟩
      next => cases h
  · rintro ⟨hdot, hvar, hlocal, henough, hfirst⟩
    have hkept := mt hout.mp (not_not.mpr ⟨hdot, hvar, hlocal⟩)
    rw [nodeOf?, if_neg hkept, nodeName?_of_two_le ((two_le_length_pieces_iff _).mpr hdot),
      if_pos henough, ← hfirst, String.ofList_toList]

/-- The parts of the node are the parts that name it. -/
theorem StandsFor.pieces_node {mention node : String} (h : StandsFor mention node) :
    pieces '.' node.toList =
      (pieces '.' mention.toList).take (nodeParts (pieces '.' mention.toList)) := by
  rw [h.first]
  refine pieces_joinPieces_of_not_mem ?_ ?_
  · have hne := pieces_ne_nil '.' mention.toList
    unfold nodeParts
    split <;> simp [hne]
  · intro p hp
    exact not_mem_of_mem_pieces (List.mem_of_mem_take hp)

theorem StandsFor.front {mention node : String} (h : StandsFor mention node) :
    node.toList <+: mention.toList := by
  rw [h.first]
  conv_rhs => rw [← joinPieces_pieces '.' mention.toList]
  exact joinPieces_take_prefix ['.'] _ _

/-- A node that a mention stands for stands for itself. -/
theorem StandsFor.self {mention node : String} (h : StandsFor mention node) :
    StandsFor node node := by
  have hparts : nodeParts (pieces '.' node.toList) = nodeParts (pieces '.' mention.toList) := by
    have hhead : (pieces '.' node.toList).head? = (pieces '.' mention.toList).head? := by
      rw [h.pieces_node, List.head?_take, if_neg]
      unfold nodeParts
      split <;> decide
    rw [nodeParts, hhead, nodeParts]
  have hlength : (pieces '.' node.toList).length = nodeParts (pieces '.' mention.toList) := by
    rw [h.pieces_node, List.length_take, Nat.min_eq_left h.enough]
  refine ⟨?_, ?_, ?_, ?_, ?_⟩
  · rw [← two_le_length_pieces_iff, hlength]
    unfold nodeParts
    split <;> decide
  · exact fun hvar => h.not_variable (hvar.trans h.front)
  · exact fun hlocal => h.not_local (hlocal.trans h.front)
  · rw [hparts, hlength]
  · rw [hparts, ← hlength, List.take_length, joinPieces_pieces]

/-- The ids of all nodes. -/
def nodeIds (v : Inventory) : List String :=
  v.resources.keys ++ v.dataSources.keys ++ v.modules.keys

/-- A node states a dependency or refers to something. -/
inductive Mentions (v : Inventory) (id mention : String) : Prop
  | dependency {r : Resource} (h : v.resources.get? id = some r) (hmem : mention ∈ r.dependencies)
  | byResource {r : Resource} (h : v.resources.get? id = some r) (hmem : mention ∈ r.references)
  | byDataSource {d : DataSource} (h : v.dataSources.get? id = some d)
    (hmem : mention ∈ d.references)
  | byModule {c : ModuleCall} (h : v.modules.get? id = some c) (hmem : mention ∈ c.references)

/-- Something that a node mentions stands for another node. -/
def DependsOn (v : Inventory) (id node : String) : Prop :=
  ∃ mention, v.Mentions id mention ∧ nodeOf? mention = some node ∧ node ≠ id

theorem mem_mentionsByNode_iff (v : Inventory) (id : String) (mentions : List String) :
    (id, mentions) ∈ v.mentionsByNode ↔
      (∃ r, v.resources.get? id = some r ∧ r.dependencies ++ r.references = mentions) ∨
      (∃ d, v.dataSources.get? id = some d ∧ d.references = mentions) ∨
      ∃ c, v.modules.get? id = some c ∧ c.references = mentions := by
  simp [mentionsByNode, Table.mem_sorted_iff]

theorem mentions_iff (v : Inventory) (id mention : String) :
    v.Mentions id mention ↔ ∃ mentions, (id, mentions) ∈ v.mentionsByNode ∧ mention ∈ mentions := by
  simp only [mem_mentionsByNode_iff]
  constructor
  · rintro (⟨h, hmem⟩ | ⟨h, hmem⟩ | ⟨h, hmem⟩ | ⟨h, hmem⟩)
    · exact ⟨_, .inl ⟨_, h, rfl⟩, List.mem_append_left _ hmem⟩
    · exact ⟨_, .inl ⟨_, h, rfl⟩, List.mem_append_right _ hmem⟩
    · exact ⟨_, .inr (.inl ⟨_, h, rfl⟩), hmem⟩
    · exact ⟨_, .inr (.inr ⟨_, h, rfl⟩), hmem⟩
  · rintro ⟨_, ⟨r, h, rfl⟩ | ⟨d, h, rfl⟩ | ⟨c, h, rfl⟩, hmem⟩
    · rcases List.mem_append.mp hmem with hmem | hmem
      · exact .dependency h hmem
      · exact .byResource h hmem
    · exact .byDataSource h hmem
    · exact .byModule h hmem

theorem map_fst_mentionsByNode (v : Inventory) :
    (v.mentionsByNode.map Prod.fst).Perm v.nodeIds := by
  have hkeys : ∀ {α : Type} (t : Table α), (t.sorted.map Prod.fst).Perm t.keys :=
    fun t => (List.mergeSort_perm _ _).map _
  simp only [mentionsByNode, List.map_append, List.map_map]
  exact ((hkeys _).append (hkeys _)).append (hkeys _)

theorem pairwise_lt_dependenciesOf (id : String) (mentions : List String) :
    (dependenciesOf id mentions).Pairwise (· < ·) := by
  refine Order.pairwise_lt_mergeSort (fun name => name) ?_
  rw [List.map_id']
  exact Order.nodup_eraseDups _

section

variable {v : Inventory} (hids : v.nodeIds.Nodup)

include hids

theorem eq_of_mem_mentionsByNode {id : String} {ms ms' : List String}
    (h : (id, ms) ∈ v.mentionsByNode) (h' : (id, ms') ∈ v.mentionsByNode) : ms = ms' := by
  have hnodup := v.map_fst_mentionsByNode.nodup_iff.mpr hids
  exact congrArg Prod.snd (List.inj_on_of_nodup_map hnodup h h' rfl)

theorem mem_dependenciesOf_iff_dependsOn {id : String} {mentions : List String}
    (h : (id, mentions) ∈ v.mentionsByNode) (node : String) :
    node ∈ dependenciesOf id mentions ↔ v.DependsOn id node := by
  rw [mem_dependenciesOf_iff]
  constructor
  · rintro ⟨⟨m, hm, hnode⟩, hne⟩
    exact ⟨m, (v.mentions_iff id m).mpr ⟨mentions, h, hm⟩, hnode, hne⟩
  · rintro ⟨m, hmentions, hnode, hne⟩
    obtain ⟨ms, hms, hm⟩ := (v.mentions_iff id m).mp hmentions
    obtain rfl := eq_of_mem_mentionsByNode hids hms h
    exact ⟨⟨m, hm, hnode⟩, hne⟩

theorem get?_dependencyGraph (id : String) (ends : List String) :
    v.dependencyGraph.get? id = some ends ↔
      (∃ mentions, (id, mentions) ∈ v.mentionsByNode ∧ dependenciesOf id mentions = ends) ∧
      ends ≠ [] := by
  let pairs := (v.mentionsByNode.map fun p => (p.1, dependenciesOf p.1 p.2)).filter
    fun p => !p.2.isEmpty
  have hnodup : (pairs.map Prod.fst).Nodup := by
    have hsub := (List.filter_sublist (p := fun p : String × List String => !p.2.isEmpty)
      (l := v.mentionsByNode.map fun p => (p.1, dependenciesOf p.1 p.2))).map Prod.fst
    rw [List.map_map] at hsub
    exact (v.map_fst_mentionsByNode.nodup_iff.mpr hids).sublist hsub
  have hgraph : v.dependencyGraph = ⟨pairs, hnodup⟩ := Table.ofPairs_of_nodup hnodup
  rw [← Table.mem_entries_iff, hgraph]
  simp only [pairs, List.mem_filter, List.mem_map, Prod.exists, Prod.mk.injEq, Bool.not_eq_true',
    List.isEmpty_eq_false_iff, and_congr_left_iff]
  intro _
  constructor
  · rintro ⟨_, mentions, hmem, rfl, hends⟩
    exact ⟨mentions, hmem, hends⟩
  · rintro ⟨mentions, hmem, hends⟩
    exact ⟨id, mentions, hmem, rfl, hends⟩

/-- The entries of the graph are the lists that ascend strictly and hold exactly what their node
depends on, if that is anything. -/
theorem get?_dependencyGraph_iff (id : String) (ends : List String) :
    v.dependencyGraph.get? id = some ends ↔
      ends ≠ [] ∧ ends.Pairwise (· < ·) ∧ ∀ node, node ∈ ends ↔ v.DependsOn id node := by
  rw [get?_dependencyGraph hids]
  constructor
  · rintro ⟨⟨mentions, hmem, rfl⟩, hne⟩
    exact ⟨hne, pairwise_lt_dependenciesOf id mentions, mem_dependenciesOf_iff_dependsOn hids hmem⟩
  · rintro ⟨hne, hsorted, hends⟩
    obtain ⟨node, hnode⟩ := List.exists_mem_of_ne_nil ends hne
    obtain ⟨m, hmentions, -⟩ := (hends node).mp hnode
    obtain ⟨mentions, hmem, -⟩ := (v.mentions_iff id m).mp hmentions
    refine ⟨⟨mentions, hmem, ?_⟩, hne⟩
    refine (pairwise_lt_dependenciesOf id mentions).eq_of_mem_iff hsorted ?_
    intro d
    rw [mem_dependenciesOf_iff_dependsOn hids hmem, hends]

end

theorem Mentions.mem_nodeIds {v : Inventory} {id mention : String} (h : v.Mentions id mention) :
    id ∈ v.nodeIds := by
  simp only [nodeIds, List.mem_append, Table.mem_keys_iff]
  cases h with
  | dependency h => exact .inl (.inl ⟨_, h⟩)
  | byResource h => exact .inl (.inl ⟨_, h⟩)
  | byDataSource h => exact .inl (.inr ⟨_, h⟩)
  | byModule h => exact .inr ⟨_, h⟩

theorem exists_get?_dependencyGraph_iff {v : Inventory} (hids : v.nodeIds.Nodup) (id : String) :
    (∃ ends, v.dependencyGraph.get? id = some ends) ↔ ∃ node, v.DependsOn id node := by
  constructor
  · rintro ⟨ends, hends⟩
    obtain ⟨hne, -, hmem⟩ := (get?_dependencyGraph_iff hids id ends).mp hends
    obtain ⟨node, hnode⟩ := List.exists_mem_of_ne_nil ends hne
    exact ⟨node, (hmem node).mp hnode⟩
  · rintro ⟨node, m, hmentions, hnode⟩
    obtain ⟨mentions, hmem, -⟩ := (v.mentions_iff id m).mp hmentions
    have hin := (mem_dependenciesOf_iff_dependsOn hids hmem node).mpr ⟨m, hmentions, hnode⟩
    exact ⟨_, (get?_dependencyGraph hids id _).mpr
      ⟨⟨mentions, hmem, rfl⟩, List.ne_nil_of_mem hin⟩⟩

theorem get?_dependencyGraph_congr {v w : Inventory} (hv : v.nodeIds.Nodup) (hw : w.nodeIds.Nodup)
    (h : ∀ id mention, w.Mentions id mention ↔ v.Mentions id mention) (id : String) :
    w.dependencyGraph.get? id = v.dependencyGraph.get? id := by
  have hdepends : ∀ node, w.DependsOn id node ↔ v.DependsOn id node := by
    intro node
    simp only [DependsOn, h]
  apply Option.ext
  intro ends
  rw [get?_dependencyGraph_iff hw, get?_dependencyGraph_iff hv]
  simp only [hdepends]

/-- If no id belongs to two kinds of node, the graph has an entry for exactly those nodes that
mention something which stands for another node. The entry lists the nodes that are stood for,
strictly ascending: none of them is a variable, a local value or the node itself, and each stands
for itself. An inventory in which the nodes mention the same has the same entries. -/
theorem dependencyGraph_exact {v : Inventory} (hids : v.nodeIds.Nodup) :
    (∀ id, id ∈ v.dependencyGraph.keys ↔ id ∈ v.nodeIds ∧ ∃ node, v.DependsOn id node) ∧
    (∀ id ends, v.dependencyGraph.get? id = some ends →
      ends.Pairwise (· < ·) ∧ (∀ node, node ∈ ends ↔ v.DependsOn id node) ∧
      ∀ node ∈ ends, ¬"var.".toList <+: node.toList ∧ ¬"local.".toList <+: node.toList ∧
        node ≠ id ∧ nodeOf? node = some node) ∧
    ∀ w : Inventory, w.nodeIds.Nodup →
      (∀ id mention, w.Mentions id mention ↔ v.Mentions id mention) →
      ∀ id, w.dependencyGraph.get? id = v.dependencyGraph.get? id := by
  refine ⟨?_, ?_, fun w hw h => get?_dependencyGraph_congr hids hw h⟩
  · intro id
    rw [Table.mem_keys_iff, exists_get?_dependencyGraph_iff hids]
    constructor
    · rintro ⟨node, m, hmentions, hnode⟩
      exact ⟨hmentions.mem_nodeIds, node, m, hmentions, hnode⟩
    · exact And.right
  · intro id ends hends
    obtain ⟨-, hsorted, hmem⟩ := (get?_dependencyGraph_iff hids id ends).mp hends
    refine ⟨hsorted, hmem, ?_⟩
    intro node hnode
    obtain ⟨m, -, hm, hne⟩ := (hmem node).mp hnode
    have hself := ((nodeOf?_eq_some_iff m node).mp hm).self
    exact ⟨hself.not_variable, hself.not_local, hne, (nodeOf?_eq_some_iff node node).mpr hself⟩

/-- A machine and the module that makes its network. -/
def machineInventory : Inventory where
  resources := .ofPairs [("aws_vm.web",
    { type := "aws_vm", name := "web", provider := "aws", file := "main.tf", line := 1,
      dependencies := ["module.net"], references := ["var.size", "data.aws_ami.base.id"] })]
  modules := .ofPairs [("module.net",
    { name := "net", source := "./net", file := "main.tf", line := 5, references := ["var.zone"] })]

/-- The machine with its mentions in other places, one of them twice. -/
def shuffledInventory : Inventory where
  resources := .ofPairs [("aws_vm.web",
    { type := "aws_vm", name := "web", provider := "aws", file := "main.tf", line := 1,
      references := ["data.aws_ami.base.id", "module.net", "var.size", "module.net"] })]
  modules := machineInventory.modules

theorem mentions_machineInventory_iff (id mention : String) :
    machineInventory.Mentions id mention ↔
      id = "aws_vm.web" ∧ mention ∈ ["module.net", "var.size", "data.aws_ami.base.id"] ∨
      id = "module.net" ∧ mention = "var.zone" := by
  have hlist : machineInventory.mentionsByNode =
      [("aws_vm.web", ["module.net", "var.size", "data.aws_ami.base.id"]),
        ("module.net", ["var.zone"])] := by
    decide +kernel
  rw [mentions_iff, hlist]
  simp [or_and_right, exists_or, and_assoc]

theorem mentions_shuffledInventory_iff (id mention : String) :
    shuffledInventory.Mentions id mention ↔ machineInventory.Mentions id mention := by
  have hlist : shuffledInventory.mentionsByNode =
      [("aws_vm.web", ["data.aws_ami.base.id", "module.net", "var.size", "module.net"]),
        ("module.net", ["var.zone"])] := by
    decide +kernel
  rw [mentions_machineInventory_iff, mentions_iff, hlist]
  simp only [List.mem_cons, Prod.mk.injEq, List.not_mem_nil, or_false, or_and_right, exists_or,
    and_assoc, exists_eq_left, exists_and_left]
  tauto

theorem dependencyGraph_exact_machineInventory :
    machineInventory.nodeIds.Nodup ∧ shuffledInventory.nodeIds.Nodup ∧
    "aws_vm.web" ∈ machineInventory.dependencyGraph.keys ∧
    "module.net" ∉ machineInventory.dependencyGraph.keys ∧
    ∀ id, shuffledInventory.dependencyGraph.get? id = machineInventory.dependencyGraph.get? id := by
  have hids : machineInventory.nodeIds.Nodup := by decide
  have hids' : shuffledInventory.nodeIds.Nodup := by decide
  obtain ⟨hkeys, -, hcongr⟩ := dependencyGraph_exact hids
  refine ⟨hids, hids', ?_, ?_, hcongr shuffledInventory hids' mentions_shuffledInventory_iff⟩
  · refine (hkeys "aws_vm.web").mpr ⟨by decide, "module.net", "module.net", ?_, rfl, by decide⟩
    exact (mentions_machineInventory_iff _ _).mpr (.inl ⟨rfl, by decide⟩)
  · intro hkey
    obtain ⟨-, node, m, hmentions, hnode, -⟩ := (hkeys "module.net").mp hkey
    rcases (mentions_machineInventory_iff _ _).mp hmentions with ⟨hid, -⟩ | ⟨-, rfl⟩
    · exact absurd hid (by decide)
    · cases hnode

end CodeAtlas.Terraform.Inventory
