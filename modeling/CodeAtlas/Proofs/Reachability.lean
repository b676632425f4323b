import CodeAtlas.Impact
import CodeAtlas.Proofs.Order
import CodeAtlas.Proofs.Table
import Mathlib.Data.List.Chain
import Mathlib.Logic.Relation

/-!
# What a search reaches

An edge goes from a node to one it depends on, and a path is a list of nodes with
an edge from each to the next. The search from the direct dependents of a node,
over the reversed graph, finds exactly the nodes with a path of at least one edge
to it. Nothing is assumed of the graph: it may have cycles, loops, repeated
dependencies and dependencies without an entry of their own.
-/

namespace CodeAtlas.Graph

/-- The first node is listed with the second. -/
def Edge (g : Graph) (a b : String) : Prop := b ∈ g.neighbours a

/-- Each node of the list has an edge to the next. -/
def IsPath (g : Graph) (nodes : List String) : Prop := nodes.IsChain g.Edge

/-- A path of one edge or more leads from a node to another. -/
def Reaches (g : Graph) (a b : String) : Prop := ∃ middle, g.IsPath (a :: (middle ++ [b]))

/-- A path that ends where it starts, written without its last node. -/
def IsCycle (g : Graph) (nodes : List String) : Prop :=
  ∃ a rest, nodes = a :: rest ∧ g.IsPath (a :: (rest ++ [a]))

theorem reaches_iff_transGen (g : Graph) (a b : String) :
    g.Reaches a b ↔ Relation.TransGen g.Edge a b := by
  constructor
  · rintro ⟨middle, hpath⟩
    induction middle generalizing a with
    | nil => exact .single (List.isChain_pair.mp hpath)
    | cons c rest ih =>
      rw [IsPath, List.cons_append, List.isChain_cons_cons] at hpath
      exact .head hpath.1 (ih c hpath.2)
  · intro h
    induction h using Relation.TransGen.head_induction_on with
    | single hab => exact ⟨[], List.isChain_pair.mpr hab⟩
    | head hac _ ih =>
      obtain ⟨middle, hpath⟩ := ih
      exact ⟨_ :: middle, List.isChain_cons_cons.mpr ⟨hac, hpath⟩⟩

theorem Reaches.trans {g : Graph} {a b c : String} (hab : g.Reaches a b) (hbc : g.Reaches b c) :
    g.Reaches a c := by
  rw [reaches_iff_transGen] at *
  exact hab.trans hbc

/-- The part of a path behind its first node reaches no less than the path does. -/
theorem IsPath.reflTransGen {g : Graph} {a b : String} {nodes : List String}
    (h : g.IsPath (a :: nodes)) (hb : b ∈ a :: nodes) : Relation.ReflTransGen g.Edge a b := by
  rcases List.mem_cons.mp hb with rfl | hb
  · exact .refl
  · exact h.cons_induction (Relation.ReflTransGen g.Edge a ·) nodes
      (fun _ _ hxy hax => hax.tail hxy) .refl b hb

/-- A node lies on a cycle exactly if it reaches itself. -/
theorem reaches_self_iff (g : Graph) (a : String) :
    g.Reaches a a ↔ ∃ nodes, g.IsCycle nodes ∧ a ∈ nodes := by
  constructor
  · rintro ⟨middle, hpath⟩
    exact ⟨a :: middle, ⟨a, middle, rfl, hpath⟩, List.mem_cons_self⟩
  · rintro ⟨_, ⟨b, rest, rfl, hpath⟩, ha⟩
    -- The cycle is cut at the node: from there to the end, and from the start back to it.
    obtain ⟨front, back, hsplit⟩ := List.append_of_mem ha
    have hto : Relation.ReflTransGen g.Edge b a := by
      refine hpath.reflTransGen ?_
      rw [← List.cons_append, hsplit]
      simp
    have hfrom : g.Reaches a b := by
      refine ⟨back, ?_⟩
      have hwhole : b :: (rest ++ [b]) = front ++ (a :: (back ++ [b])) := by
        rw [← List.cons_append, hsplit]
        simp
      rw [hwhole] at hpath
      exact hpath.right_of_append
    rw [reaches_iff_transGen] at *
    exact hfrom.trans_left hto

theorem mem_edges_iff (g : Graph) (a b : String) : (a, b) ∈ g.edges ↔ g.Edge a b := by
  have hlists : (a, b) ∈ g.edges ↔ ∃ ends, (a, ends) ∈ g.entries ∧ b ∈ ends := by
    simp only [edges, List.mem_flatMap, List.mem_map, Prod.exists, Prod.mk.injEq,
      exists_eq_right_right]
    constructor
    · rintro ⟨node, ends, hmem, hb, rfl⟩
      exact ⟨ends, hmem, hb⟩
    · rintro ⟨ends, hmem, hb⟩
      exact ⟨a, ends, hmem, hb, rfl⟩
  rw [hlists, Edge, neighbours]
  simp only [Table.mem_entries_iff]
  cases g.get? a <;> simp

theorem edge_pushNew (g : Graph) (key node a b : String) :
    Edge (g.pushNew key node) a b ↔ g.Edge a b ∨ (a = key ∧ b = node) := by
  simp only [Edge, neighbours, Table.pushNew, Table.get?_insert]
  by_cases ha : a = key
  · subst ha
    simp only [if_true, Option.getD_some, true_and]
    split
    next hheld =>
      have hmem : node ∈ (g.get? a).getD [] := by simpa using hheld
      constructor
      · exact Or.inl
      · rintro (h | rfl)
        · exact h
        · exact hmem
    next => simp
  · simp [ha]

theorem edge_foldl_pushNew (pairs : List (String × String)) (g : Graph) (a b : String) :
    Edge (pairs.foldl (fun r (node, dependency) => r.pushNew dependency node) g) a b ↔
      g.Edge a b ∨ (b, a) ∈ pairs := by
  induction pairs generalizing g with
  | nil => simp
  | cons p rest ih =>
    obtain ⟨node, dependency⟩ := p
    rw [List.foldl_cons, ih, edge_pushNew, List.mem_cons, Prod.mk.injEq, or_assoc,
      and_comm (a := a = dependency)]

/-- Reversing turns every edge around and adds none. -/
theorem edge_reverse_iff (g : Graph) (a b : String) : g.reverse.Edge a b ↔ g.Edge b a := by
  rw [reverse, edge_foldl_pushNew, mem_edges_iff]
  simp [Edge, neighbours]

theorem reaches_reverse_iff (g : Graph) (a b : String) : g.reverse.Reaches a b ↔ g.Reaches b a := by
  have hswap : g.reverse.Edge = Function.swap g.Edge := by
    funext x y
    exact propext (edge_reverse_iff g x y)
  rw [reaches_iff_transGen, reaches_iff_transGen, hswap, Relation.transGen_swap]

theorem mem_fresh_iff (g : Graph) (visited : List String) (node n : String) :
    n ∈ g.fresh visited node ↔ g.Edge node n ∧ n ∉ visited := by
  simp [fresh, Edge]

/-- The state of a search: all that is queued is visited, and of the other visited nodes every
neighbour is visited too. -/
structure Frontier (g : Graph) (visited queue : List String) : Prop where
  nodup : visited.Nodup
  queued : ∀ n ∈ queue, n ∈ visited
  expanded : ∀ n ∈ visited, n ∉ queue → ∀ m, g.Edge n m → m ∈ visited

theorem Frontier.start (g : Graph) (nodes : List String) : g.Frontier nodes.eraseDups nodes where
  nodup := Order.nodup_eraseDups nodes
  queued _ hn := List.mem_eraseDups.mpr hn
  expanded _ hn hq := absurd (List.mem_eraseDups.mp hn) hq

/-- Taking the first node of the queue and adding its fresh neighbours keeps the state. -/
theorem Frontier.step {g : Graph} {visited rest : List String} {node : String}
    (h : g.Frontier visited (node :: rest)) :
    g.Frontier (visited ++ g.fresh visited node) (rest ++ g.fresh visited node) where
  nodup := by
    refine List.nodup_append.mpr ⟨h.nodup, (Order.nodup_eraseDups _).filter _, ?_⟩
    intro n hn m hm hnm
    exact ((mem_fresh_iff g visited node m).mp hm).2 (hnm ▸ hn)
  queued := by
    intro n hn
    rw [List.mem_append] at *
    exact hn.imp_left fun hr => h.queued n (List.mem_cons_of_mem _ hr)
  expanded := by
    intro n hn hq m hm
    simp only [List.mem_append, not_or] at hn hq ⊢
    have hvisited : n ∈ visited := hn.resolve_right hq.2
    by_cases hmv : m ∈ visited
    · exact .inl hmv
    · by_cases hnode : n = node
      · subst hnode
        exact .inr ((mem_fresh_iff g visited n m).mpr ⟨hm, hmv⟩)
      · have hnq : n ∉ node :: rest := by simp [hnode, hq.1]
        exact absurd (h.expanded n hvisited hnq m hm) hmv

/-- A search ends with its queue empty. -/
theorem Frontier.spread {g : Graph} {visited queue : List String} (h : g.Frontier visited queue) :
    g.Frontier (g.spread visited queue) [] := by
  induction visited, queue using Graph.spread.induct g with
  | case1 visited => simpa [Graph.spread] using h
  | case2 visited node rest ih =>
    rw [Graph.spread]
    exact ih h.step

theorem subset_spread (g : Graph) (visited queue : List String) :
    visited ⊆ g.spread visited queue := by
  induction visited, queue using Graph.spread.induct g with
  | case1 visited => simp [Graph.spread]
  | case2 visited node rest ih =>
    rw [Graph.spread]
    exact fun _ hn => ih (List.mem_append_left _ hn)

/-- Whatever the search adds is reached from a node it started with. -/
theorem exists_reflTransGen_of_mem_spread {g : Graph} {visited queue : List String}
    (h : g.Frontier visited queue) {n : String} (hn : n ∈ g.spread visited queue) :
    ∃ a ∈ visited, Relation.ReflTransGen g.Edge a n := by
  induction visited, queue using Graph.spread.induct g with
  | case1 visited =>
    rw [Graph.spread] at hn
    exact ⟨n, hn, .refl⟩
  | case2 visited node rest ih =>
    rw [Graph.spread] at hn
    obtain ⟨a, ha, han⟩ := ih h.step hn
    rcases List.mem_append.mp ha with hold | hfresh
    · exact ⟨a, hold, han⟩
    · have hedge := ((mem_fresh_iff g visited node a).mp hfresh).1
      exact ⟨node, h.queued node List.mem_cons_self, .head hedge han⟩

/-- The search visits what can be reached from where it starts, and nothing else. -/
theorem mem_spread_iff (g : Graph) (nodes : List String) (n : String) :
    n ∈ g.spread nodes.eraseDups nodes ↔ ∃ a ∈ nodes, Relation.ReflTransGen g.Edge a n := by
  have hstart := Frontier.start g nodes
  constructor
  · intro hn
    obtain ⟨a, ha, han⟩ := exists_reflTransGen_of_mem_spread hstart hn
    exact ⟨a, List.mem_eraseDups.mp ha, han⟩
  · rintro ⟨a, ha, han⟩
    induction han with
    | refl => exact subset_spread g _ _ (List.mem_eraseDups.mpr ha)
    | tail _ hedge ih => exact hstart.spread.expanded _ ih List.not_mem_nil _ hedge

theorem nodup_affectedBy (g : Graph) (target : String) : (g.affectedBy target).Nodup :=
  (List.mergeSort_perm _ _).nodup_iff.mpr (Frontier.start g _).spread.nodup

theorem mem_affectedBy_iff (g : Graph) (target n : String) :
    n ∈ g.affectedBy target ↔ g.Reaches target n := by
  rw [affectedBy, List.mem_mergeSort, mem_spread_iff, reaches_iff_transGen,
    Relation.TransGen.head'_iff]
  rfl

theorem mem_affectedBy_reverse_iff (g : Graph) (target n : String) :
    n ∈ g.reverse.affectedBy target ↔ g.Reaches n target := by
  rw [mem_affectedBy_iff, reaches_reverse_iff]

/-- The affected nodes are those with a path of dependencies to the changed one, which is among
them exactly if it lies on a cycle. -/
theorem affectedBy_reverse_exact (g : Graph) (target : String) :
    (g.reverse.affectedBy target).Nodup ∧
    (∀ n, n ∈ g.reverse.affectedBy target ↔
      ∃ middle, g.IsPath (n :: (middle ++ [target]))) ∧
    (target ∈ g.reverse.affectedBy target ↔ ∃ nodes, g.IsCycle nodes ∧ target ∈ nodes) := by
  refine ⟨nodup_affectedBy g.reverse target, mem_affectedBy_reverse_iff g target, ?_⟩
  rw [mem_affectedBy_reverse_iff, reaches_self_iff]

/-- There is an impact for each node that something depends on, and for no other. -/
theorem mem_impacts_iff (g : Graph) (i : Impact) :
    i ∈ g.impacts ↔ i = Impact.ofTarget g.reverse i.target ∧ ∃ n, g.Edge n i.target := by
  have hlisted : ∀ target, (∃ ends, (target, ends) ∈ g.reverse.entries ∧ ends ≠ []) ↔
      ∃ n, g.Edge n target := by
    intro target
    have hback : (∃ n, g.Edge n target) ↔ ∃ n, g.reverse.Edge target n :=
      exists_congr fun n => (edge_reverse_iff g target n).symm
    rw [hback]
    simp only [Table.mem_entries_iff, Edge, neighbours]
    cases g.reverse.get? target with
    | none => simp
    | some ends => cases ends <;> simp
  rw [impacts, List.mem_mergeSort, List.mem_map, ← hlisted]
  constructor
  · rintro ⟨⟨target, ends⟩, hmem, rfl⟩
    obtain ⟨hentry, hends⟩ := List.mem_filter.mp hmem
    exact ⟨rfl, ends, hentry, by simpa using hends⟩
  · rintro ⟨hi, ends, hentry, hends⟩
    exact ⟨(i.target, ends), List.mem_filter.mpr ⟨hentry, by simpa using hends⟩, hi.symm⟩

end CodeAtlas.Graph
