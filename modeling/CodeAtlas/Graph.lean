import CodeAtlas.Table

/-!
# Graphs

A graph lists for each node what it depends on. It may have cycles, and a
dependency need not be a node of its own. The nodes affected by a change are
those that depend on the changed one, directly or through others; they are found
from the reversed graph by a search in breadth.
-/

namespace CodeAtlas

abbrev Graph := Table (List String)

namespace Graph

/-- What a node is listed with. -/
def neighbours (g : Graph) (node : String) : List String := (g.get? node).getD []

/-- The edges of a graph, in the order of its lists. -/
def edges (g : Graph) : List (String × String) :=
  g.entries.flatMap fun (node, ends) => ends.map fun e => (node, e)

/-- For each dependency its direct dependents, in the order in which they are met. -/
def reverse (g : Graph) : Graph :=
  g.edges.foldl (fun r (node, dependency) => r.pushNew dependency node) ∅

/-- Every node that an edge leads to. -/
def targets (g : Graph) : List String := g.entries.flatMap Prod.snd

theorem mem_targets_of_mem_neighbours {g : Graph} {a b : String} (h : b ∈ g.neighbours a) :
    b ∈ g.targets := by
  rw [neighbours, Table.get?] at h
  cases hl : g.entries.lookup a with
  | none => rw [hl] at h; simp at h
  | some l =>
    rw [hl] at h
    obtain ⟨before, after, hentries, -⟩ := List.lookup_eq_some_iff.mp hl
    exact List.mem_flatMap.mpr ⟨(a, l), by simp [hentries], h⟩

/-- The neighbours of a node that are not among the visited ones. -/
def fresh (g : Graph) (visited : List String) (node : String) : List String :=
  (g.neighbours node).eraseDups.filter fun n => !visited.contains n

/-- How many targets are not among the visited nodes. -/
def unvisited (g : Graph) (visited : List String) : Nat :=
  (g.targets.filter fun n => !visited.contains n).length

theorem unvisited_append_fresh_lt {g : Graph} {visited : List String} {node : String}
    (h : g.fresh visited node ≠ []) :
    g.unvisited (visited ++ g.fresh visited node) < g.unvisited visited := by
  obtain ⟨n, hn⟩ := List.exists_mem_of_ne_nil _ h
  have hmem : n ∈ g.neighbours node ∧ n ∉ visited := by
    simpa [fresh] using hn
  have hsplit : (g.targets.filter fun n => !(visited ++ g.fresh visited node).contains n) =
      (g.targets.filter fun n => !visited.contains n).filter
        fun n => !(g.fresh visited node).contains n := by
    rw [List.filter_filter]
    congr 1
    funext x
    simp [Bool.and_comm]
  rw [unvisited, unvisited, hsplit]
  refine List.length_filter_lt_length_iff_exists.mpr ⟨n, ?_, by simp [hn]⟩
  simp only [List.mem_filter]
  exact ⟨mem_targets_of_mem_neighbours hmem.1, by simpa using hmem.2⟩

/-- The visited nodes once everything that can be reached from the queue is visited too. -/
def spread (g : Graph) (visited queue : List String) : List String :=
  match queue with
  | [] => visited
  | node :: rest =>
    spread g (visited ++ g.fresh visited node) (rest ++ g.fresh visited node)
termination_by (g.unvisited visited, queue.length)
decreasing_by
  by_cases h : g.fresh visited node = []
  · rw [h, List.append_nil, List.append_nil]
    exact Prod.Lex.right _ (by simp)
  · exact Prod.Lex.left _ _ (unvisited_append_fresh_lt h)

/-- What depends on the target, by the direct dependents of each node. The target itself is among
them only if it depends on itself. -/
def affectedBy (dependents : Graph) (target : String) : List String :=
  let direct := dependents.neighbours target
  (spread dependents direct.eraseDups direct).mergeSort fun a b => decide (a ≤ b)

end Graph

end CodeAtlas
