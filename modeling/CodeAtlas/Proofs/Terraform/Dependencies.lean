import CodeAtlas.Proofs.Reachability
import CodeAtlas.Proofs.Terraform.Mentions
import CodeAtlas.Proofs.Text
import CodeAtlas.Terraform.Inventory

/-!
# No dependent is missed

From the text of a block to the impact of what it names: the mention is found,
kept in the record of the block, taken over into the inventory, turned into an
edge and followed by the search. A record counts in the inventory when it is the
last one with its id, and its edges count in the graph when no data source or
module has the id as well.
-/

namespace CodeAtlas.Terraform

open CodeAtlas.Text

/-- A text whose first piece is another one does not start with a keyword and a dot. -/
theorem not_isPrefixOf_of_pieces (keyword : List Char) {first cs : List Char}
    {rest : List (List Char)} (hpieces : pieces '.' cs = first :: rest)
    (hkeyword : '.' ∉ keyword) (hne : first ≠ keyword) :
    (keyword ++ ['.']).isPrefixOf cs = false := by
  rw [Bool.eq_false_iff]
  intro hprefix
  obtain ⟨tail, rfl⟩ := List.isPrefixOf_iff_prefix.mp hprefix
  rw [List.append_assoc, List.singleton_append, pieces_append hkeyword, List.cons.injEq] at hpieces
  exact hne hpieces.1.symm

/-- A resource that is named without an attribute is a node as it stands. -/
theorem nodeOf?_resource {t n : List Char} (ht : IsTypeName t) (hn : IsIdentifier n) :
    Inventory.nodeOf? (String.ofList (t ++ '.' :: n)) = some (String.ofList (t ++ '.' :: n)) := by
  have htdot : '.' ∉ t :=
    not_mem_of_isIdentChar fun x hx => isIdentChar_of_isTypeChar (ht.isTypeChar x hx)
  have hpieces : pieces '.' (t ++ '.' :: n) = [t, n] := by
    rw [pieces_append htdot, pieces_of_not_mem (not_mem_of_isIdentChar hn.isIdentChar)]
  -- The underscore of a resource type tells it from every keyword.
  have hmem : '_' ∈ t := by
    obtain ⟨c, provider, rest, rfl, -⟩ := ht
    simp
  have hvar : ("var.".toList).isPrefixOf (t ++ '.' :: n) = false :=
    not_isPrefixOf_of_pieces ['v', 'a', 'r'] hpieces (by decide)
      (by rintro rfl; revert hmem; decide)
  have hlocal : ("local.".toList).isPrefixOf (t ++ '.' :: n) = false :=
    not_isPrefixOf_of_pieces ['l', 'o', 'c', 'a', 'l'] hpieces (by decide)
      (by rintro rfl; revert hmem; decide)
  have hdata : t ≠ ['d', 'a', 't', 'a'] := by
    rintro rfl
    revert hmem
    decide
  simp only [Inventory.nodeOf?, String.toList_ofList, hpieces, hvar, hlocal]
  simp [hdata, joinPieces]

namespace Inventory

theorem mem_dependenciesOf_iff (id : String) (mentions : List String) (d : String) :
    d ∈ dependenciesOf id mentions ↔ (∃ m ∈ mentions, nodeOf? m = some d) ∧ d ≠ id := by
  simp [dependenciesOf, List.mem_mergeSort]

/-- A node with one list of mentions has an edge to each node they stand for, except itself. -/
theorem edge_dependencyGraph_iff {v : Inventory} {id : String} {mentions : List String}
    (hmem : (id, mentions) ∈ v.mentionsByNode)
    (honly : ∀ other, (id, other) ∈ v.mentionsByNode → other = mentions) (d : String) :
    v.dependencyGraph.Edge id d ↔ d ∈ dependenciesOf id mentions := by
  let pairs := (v.mentionsByNode.map fun p => (p.1, dependenciesOf p.1 p.2)).filter
    fun p => !p.2.isEmpty
  have hpairs : ∀ ends, (id, ends) ∈ pairs.reverse ↔
      ends = dependenciesOf id mentions ∧ ends ≠ [] := by
    intro ends
    simp only [pairs, List.mem_reverse, List.mem_filter, List.mem_map, Prod.exists,
      Prod.mk.injEq, Bool.not_eq_true', List.isEmpty_eq_false_iff, and_congr_left_iff]
    intro _
    constructor
    · rintro ⟨_, other, hother, rfl, rfl⟩
      rw [honly other hother]
    · rintro rfl
      exact ⟨id, mentions, hmem, rfl, rfl⟩
  have hget : v.dependencyGraph.get? id = pairs.reverse.lookup id := Table.get?_ofPairs pairs id
  rw [Graph.Edge, Graph.neighbours, hget]
  cases hlookup : pairs.reverse.lookup id with
  | some ends =>
    obtain ⟨before, after, hsplit, -⟩ := List.lookup_eq_some_iff.mp hlookup
    have hends := (hpairs ends).mp (by simp [hsplit])
    rw [Option.getD_some, hends.1]
  | none =>
    have hnone : dependenciesOf id mentions = [] := by
      by_contra hne
      have hin := (hpairs _).mpr ⟨rfl, hne⟩
      have := List.lookup_eq_none_iff.mp hlookup _ hin
      simp at this
    simp [hnone]

/-- The mentions of a resource that no data source or module shares its id with. -/
theorem mem_mentionsByNode_resource {v : Inventory} {r : Resource} {id : String}
    (hr : v.resources.get? id = some r) (hdata : v.dataSources.get? id = none)
    (hmodule : v.modules.get? id = none) (mentions : List String) :
    (id, mentions) ∈ v.mentionsByNode ↔ mentions = r.dependencies ++ r.references := by
  have hd : ∀ d, (id, d) ∉ v.dataSources.sorted := by
    intro d hmem
    rw [Table.mem_sorted_iff, hdata] at hmem
    simp at hmem
  have hm : ∀ c, (id, c) ∉ v.modules.sorted := by
    intro c hmem
    rw [Table.mem_sorted_iff, hmodule] at hmem
    simp at hmem
  simp only [mentionsByNode, List.mem_append, List.mem_map, Prod.exists, Prod.mk.injEq]
  constructor
  · rintro ((⟨_, r', hr', rfl, rfl⟩ | ⟨_, d, hmem, rfl, -⟩) | ⟨_, c, hmem, rfl, -⟩)
    · rw [Table.mem_sorted_iff, hr, Option.some.injEq] at hr'
      rw [hr']
    · exact absurd hmem (hd d)
    · exact absurd hmem (hm c)
  · rintro rfl
    exact .inl (.inl ⟨id, r, (Table.mem_sorted_iff _ _ _).mpr hr, rfl, rfl⟩)

/-- Of the resources with one id the last stays. -/
theorem get?_resources_add {m : Manifest} {r : Resource} {earlier later : List Resource}
    (v : Inventory) (hm : m.resources = earlier ++ r :: later)
    (hlast : ∀ r' ∈ later, r'.id ≠ r.id) : (v.add m).resources.get? r.id = some r := by
  have hpairs : m.resources.map (fun r => (r.id, r)) =
      earlier.map (fun r => (r.id, r)) ++ (r.id, r) :: later.map (fun r => (r.id, r)) := by
    simp [hm]
  rw [add, hpairs]
  refine Table.get?_insertAll_of_last _ _ _ _ ?_
  intro p hp
  obtain ⟨r', hr', rfl⟩ := List.mem_map.mp hp
  exact hlast r' hr'

theorem get?_dataSources_add_of_not_mem {m : Manifest} {id : String} (v : Inventory)
    (h : ∀ d ∈ m.dataSources, d.id ≠ id) :
    (v.add m).dataSources.get? id = v.dataSources.get? id := by
  refine Table.get?_insertAll_of_not_mem _ ?_
  intro p hp
  obtain ⟨d, hd, rfl⟩ := List.mem_map.mp hp
  exact h d hd

theorem get?_modules_add_of_not_mem {m : Manifest} {id : String} (v : Inventory)
    (h : ∀ c ∈ m.modules, c.id ≠ id) : (v.add m).modules.get? id = v.modules.get? id := by
  refine Table.get?_insertAll_of_not_mem _ ?_
  intro p hp
  obtain ⟨c, hc, rfl⟩ := List.mem_map.mp hp
  exact h c hc

end Inventory

/-- The record of a resource block keeps every mention but its own id. -/
theorem references_of_mem_records {b : Block} {file : String} {r : Resource}
    (h : r ∈ (b.records file).resources) : r.references = (mentions b.text).filter (· != r.id) := by
  obtain ⟨header, lines, line⟩ := b
  cases header with
  | resource type name =>
    obtain rfl := List.mem_singleton.mp h
    rfl
  | _ => exact absurd h List.not_mem_nil

theorem mem_resources_join_iff (parts : List Records) (r : Resource) :
    r ∈ (Records.join parts).resources ↔ ∃ p ∈ parts, r ∈ p.resources := by
  induction parts with
  | nil => simp [Records.join]
  | cons p rest ih =>
    have hjoin : (Records.join (p :: rest)).resources =
        p.resources ++ (Records.join rest).resources := rfl
    rw [hjoin, List.mem_append, ih]
    simp

/-- Every resource of a manifest is the record of a block of the text. -/
theorem mem_resources_ofText_iff (text : List Char) (file : String) (r : Resource) :
    r ∈ (Manifest.ofText text file).resources ↔
      ∃ b ∈ blocks 1 (sourceLines text), r ∈ (b.records file).resources := by
  have hjoin : (Manifest.ofText text file).resources =
      (Records.join ((blocks 1 (sourceLines text)).map (Block.records file))).resources := rfl
  rw [hjoin, mem_resources_join_iff]
  simp

/-- A resource that the block of another one names has an impact, which holds that other resource
and every node that depends on it, directly or through others. -/
theorem impacts_hold_dependents (text : List Char) (file : String) {r : Resource}
    {earlier later : List Resource}
    (hm : (Manifest.ofText text file).resources = earlier ++ r :: later)
    (hlast : ∀ r' ∈ later, r'.id ≠ r.id)
    (hdata : ∀ d ∈ (Manifest.ofText text file).dataSources, d.id ≠ r.id)
    (hmodule : ∀ c ∈ (Manifest.ofText text file).modules, c.id ≠ r.id) :
    (∃ b ∈ blocks 1 (sourceLines text), r ∈ (b.records file).resources) ∧
    ∀ b ∈ blocks 1 (sourceLines text), r ∈ (b.records file).resources →
      ∀ t n, IsTypeName t → IsIdentifier n → StandsIn (t ++ '.' :: n) b.text →
        String.ofList (t ++ '.' :: n) ≠ r.id →
        let g := (Inventory.add {} (Manifest.ofText text file)).dependencyGraph
        ∃ i ∈ g.impacts, i.target = String.ofList (t ++ '.' :: n) ∧ r.id ∈ i.affected ∧
          ∀ node, g.Reaches node r.id → node ∈ i.affected := by
  constructor
  · rw [← mem_resources_ofText_iff, hm]
    simp
  intro b _ hr t n ht hn hin hne g
  let token := String.ofList (t ++ '.' :: n)
  have hmention : token ∈ r.references := by
    rw [references_of_mem_records hr]
    exact List.mem_filter.mpr ⟨mem_mentions_of_standsIn ht hn hin, bne_iff_ne.mpr hne⟩
  have hnode := Inventory.mem_mentionsByNode_resource
    (Inventory.get?_resources_add {} hm hlast)
    (Inventory.get?_dataSources_add_of_not_mem {} hdata)
    (Inventory.get?_modules_add_of_not_mem {} hmodule)
  have hedge : g.Edge r.id token := by
    rw [Inventory.edge_dependencyGraph_iff ((hnode _).mpr rfl) fun other h => (hnode other).mp h,
      Inventory.mem_dependenciesOf_iff]
    exact ⟨⟨token, List.mem_append_right _ hmention, nodeOf?_resource ht hn⟩, hne⟩
  have hreach : g.Reaches r.id token := ⟨[], List.isChain_pair.mpr hedge⟩
  refine ⟨.ofTarget g.reverse token, (Graph.mem_impacts_iff g _).mpr ⟨rfl, r.id, hedge⟩, rfl,
    (Graph.mem_affectedBy_reverse_iff g token r.id).mpr hreach, ?_⟩
  intro node hdepends
  exact (Graph.mem_affectedBy_reverse_iff g token node).mpr (hdepends.trans hreach)

/-- A resource that is declared twice, and names another one the second time. -/
def twiceDeclared : List (List Char) :=
  ["resource \"aws_vm\" \"web\" \x7b\x7d".toList, "resource \"aws_vm\" \"web\" \x7b".toList,
    "  net = \"$\x7baws_net.main.id\x7d\"".toList, "\x7d".toList]

theorem blocks_twiceDeclared : blocks 1 (sourceLines (joinPieces ['\n'] twiceDeclared)) =
    [⟨.resource "aws_vm" "web", twiceDeclared.take 1, 1⟩,
      ⟨.resource "aws_vm" "web", twiceDeclared.drop 1, 2⟩] := by
  decide +kernel

theorem impacts_hold_twiceDeclared :
    ∃ i ∈ (Inventory.add {} (Manifest.ofText (joinPieces ['\n'] twiceDeclared)
        "main.tf")).dependencyGraph.impacts,
      i.target = "aws_net.main" ∧ "aws_vm.web" ∈ i.affected := by
  let text := joinPieces ['\n'] twiceDeclared
  let first : Block := ⟨.resource "aws_vm" "web", twiceDeclared.take 1, 1⟩
  let second : Block := ⟨.resource "aws_vm" "web", twiceDeclared.drop 1, 2⟩
  have hall : Manifest.ofText text "main.tf" =
      { Records.join [first.records "main.tf", second.records "main.tf"] with
        file := "main.tf" } := by
    rw [Manifest.ofText, blocks_twiceDeclared]
    rfl
  have hin : StandsIn ("aws_net".toList ++ '.' :: "main".toList) second.text := by
    refine ⟨"resource \"aws_vm\" \"web\" \x7b\n  net = \"$\x7b".toList, ".id\x7d\"\n\x7d".toList,
      by decide, ?_, ?_⟩
    · intro c hc
      obtain rfl : '\x7b' = c := by simpa using hc
      decide
    · intro c hc
      obtain rfl : '.' = c := by simpa using hc
      decide
  have hresources : (Manifest.ofText text "main.tf").resources =
      (first.records "main.tf").resources ++ (second.records "main.tf").resources := by
    rw [hall]
    rfl
  have hdata : (Manifest.ofText text "main.tf").dataSources = [] := by rw [hall]; rfl
  have hmodules : (Manifest.ofText text "main.tf").modules = [] := by rw [hall]; rfl
  have hsecond : second ∈ blocks 1 (sourceLines text) := by
    rw [blocks_twiceDeclared]
    exact List.mem_cons_of_mem _ List.mem_cons_self
  have htype : IsTypeName "aws_net".toList := by
    refine ⟨'a', ['w', 's'], ['n', 'e', 't'], by decide, by decide, ?_, by decide,
      List.all_eq_true.mp (by decide)⟩
    rintro x (_ | ⟨_, _ | ⟨_, ⟨⟩⟩⟩) <;> decide
  have hname : IsIdentifier "main".toList :=
    ⟨'m', ['a', 'i', 'n'], by decide, by decide, List.all_eq_true.mp (by decide)⟩
  obtain ⟨i, hi, htarget, haffected, -⟩ :=
    (impacts_hold_dependents text "main.tf" hresources (by simp) (by simp [hdata])
      (by simp [hmodules])).2 second hsecond List.mem_cons_self "aws_net".toList "main".toList
      htype hname hin (by decide)
  exact ⟨i, hi, htarget, haffected⟩

end CodeAtlas.Terraform
