import CodeAtlas.Proofs.Order
import CodeAtlas.Proofs.Reachability
import Mathlib.Data.List.Sort
import Mathlib.Data.String.Basic

/-!
# Reports of impacts

A report has one impact for each node that something depends on, and its order
leaves no choice: no two impacts have the same target, so no two are alike in it.
What the report says, and in which order, therefore follows from the edges of the
graph alone. It does not matter in which order nodes and dependencies are listed,
how often, or whether nodes without dependencies are listed at all.
-/

namespace CodeAtlas

namespace Severity

/-- One severity is reported before another. -/
inductive Above : Severity → Severity → Prop
  | high_medium : Above high medium
  | high_low : Above high low
  | medium_low : Above medium low

/-- What a severity says of the number of affected nodes. -/
def Rates : Severity → Nat → Prop
  | low, count => count ≤ 5
  | medium, count => 5 < count ∧ count ≤ 20
  | high, count => 20 < count

theorem rates_ofCount (count : Nat) : (ofCount count).Rates count := by
  by_cases hlow : count ≤ 5
  · have h : (count : Int) ≤ lowMax := by simp only [lowMax]; omega
    simp [ofCount, h, Rates, hlow]
  · have h : ¬(count : Int) ≤ lowMax := by simp only [lowMax]; omega
    by_cases hmedium : count ≤ 20
    · have h' : (count : Int) ≤ mediumMax := by simp only [mediumMax]; omega
      simp only [ofCount, h, h', if_false, if_true, Rates]
      omega
    · have h' : ¬(count : Int) ≤ mediumMax := by simp only [mediumMax]; omega
      simp only [ofCount, h, h', if_false, Rates]
      omega

theorem above_iff_rank_lt (a b : Severity) : Above a b ↔ a.rank < b.rank := by
  constructor
  · rintro (_ | _ | _) <;> decide
  · cases a <;> cases b <;> simp [rank] <;> constructor

theorem rank_inj {a b : Severity} (h : a.rank = b.rank) : a = b := by
  cases a <;> cases b <;> simp_all [rank]

end Severity

namespace Impact

/-- One impact stands before another: it is more severe, or as severe and affects more nodes, or
affects as many and has the lesser name. -/
inductive Precedes (a b : Impact) : Prop
  | bySeverity (h : a.severity.Above b.severity)
  | byCount (hseverity : a.severity = b.severity) (h : b.affected.length < a.affected.length)
  | byTarget (hseverity : a.severity = b.severity)
    (hcount : a.affected.length = b.affected.length) (h : a.target < b.target)

theorem Precedes.not_precedes {a b : Impact} (hab : a.Precedes b) : ¬b.Precedes a := by
  intro hba
  rcases hab with h | ⟨hs, h⟩ | ⟨hs, hc, h⟩ <;> rcases hba with h' | ⟨hs', h'⟩ | ⟨hs', hc', h'⟩
  all_goals simp_all only [Severity.above_iff_rank_lt]
  -- Ranks and counts are numbers; only where both agree the targets are compared.
  all_goals first | omega | exact absurd h' (not_lt_of_gt h)

instance : Std.Asymm Precedes := ⟨fun _ _ h => h.not_precedes⟩

theorem sorts_le : Order.Sorts le where
  trans a b c hab hbc := by
    unfold le at *
    grind [String.le_trans]
  total a b := by
    have htarget := String.le_total a.target b.target
    unfold le
    grind

/-- Impacts with different targets are never alike. -/
theorem precedes_of_le {a b : Impact} (h : a.le b = true) (hne : a.target ≠ b.target) :
    a.Precedes b := by
  unfold le at h
  split at h
  next hrank =>
    exact .bySeverity ((Severity.above_iff_rank_lt _ _).mpr (of_decide_eq_true h))
  next hrank =>
    have hseverity := Severity.rank_inj (not_ne_iff.mp hrank)
    split at h
    next => exact .byCount hseverity (of_decide_eq_true h)
    next hcount =>
      exact .byTarget hseverity (not_ne_iff.mp hcount) (lt_of_le_of_ne (of_decide_eq_true h) hne)

end Impact

namespace Graph

theorem mem_targets_iff (g : Graph) (node : String) : node ∈ g.targets ↔ ∃ n, g.Edge n node := by
  simp only [← mem_edges_iff, targets, edges, List.mem_flatMap, List.mem_map, Prod.mk.injEq]
  constructor
  · rintro ⟨⟨n, ends⟩, hentry, hmem⟩
    exact ⟨n, (n, ends), hentry, node, hmem, rfl, rfl⟩
  · rintro ⟨n, ⟨m, ends⟩, hentry, _, hmem, -, rfl⟩
    exact ⟨(m, ends), hentry, hmem⟩

theorem nodup_targets_impacts (g : Graph) : (g.impacts.map Impact.target).Nodup := by
  have hperm := (List.mergeSort_perm ((g.reverse.entries.filter fun p => !p.2.isEmpty).map
    fun p => Impact.ofTarget g.reverse p.1) Impact.le).map Impact.target
  refine hperm.nodup_iff.mpr ?_
  rw [List.map_map]
  exact g.reverse.nodup_keys.sublist (List.filter_sublist.map _)

theorem pairwise_precedes_impacts (g : Graph) : g.impacts.Pairwise Impact.Precedes := by
  have hle : g.impacts.Pairwise fun a b => a.le b = true :=
    List.pairwise_mergeSort Impact.sorts_le.trans Impact.sorts_le.total _
  have hne := List.pairwise_map.mp g.nodup_targets_impacts
  exact (hle.and hne).imp fun h => Impact.precedes_of_le h.1 h.2

theorem pairwise_lt_affectedBy (g : Graph) (target : String) :
    (g.affectedBy target).Pairwise (· < ·) := by
  refine Order.pairwise_lt_mergeSort id ?_
  rw [List.map_id]
  exact (Frontier.start g _).spread.nodup

section Congr

variable {g h : Graph} (hedge : ∀ a b, h.Edge a b ↔ g.Edge a b)

include hedge

theorem reaches_congr (a b : String) : h.Reaches a b ↔ g.Reaches a b := by
  have heq : h.Edge = g.Edge := by
    funext x y
    exact propext (hedge x y)
  rw [reaches_iff_transGen, reaches_iff_transGen, heq]

theorem ofTarget_reverse_congr (target : String) :
    Impact.ofTarget h.reverse target = Impact.ofTarget g.reverse target := by
  have haffected : h.reverse.affectedBy target = g.reverse.affectedBy target := by
    refine (pairwise_lt_affectedBy _ _).eq_of_mem_iff (pairwise_lt_affectedBy _ _) ?_
    intro n
    rw [mem_affectedBy_reverse_iff, mem_affectedBy_reverse_iff, reaches_congr hedge]
  simp only [Impact.ofTarget, haffected]

/-- Graphs with the same edges have the same report. -/
theorem impacts_congr : h.impacts = g.impacts := by
  refine (pairwise_precedes_impacts h).eq_of_mem_iff (pairwise_precedes_impacts g) ?_
  intro i
  rw [mem_impacts_iff, mem_impacts_iff, ofTarget_reverse_congr hedge]
  simp only [hedge]

end Congr

/-- A report has exactly one impact for each node that is listed as a dependency. Each holds, in
strictly ascending order, the nodes that depend on its target, directly or through others, and is
rated by their number. Impacts stand strictly in the order of severity, number and target, and
every graph with the same edges has the same report. -/
theorem impacts_canonical (g : Graph) :
    (∀ node, (g.impacts.map Impact.target).count node = if node ∈ g.targets then 1 else 0) ∧
    (∀ i ∈ g.impacts, i.affected.Pairwise (· < ·) ∧
      (∀ n, n ∈ i.affected ↔ g.Reaches n i.target) ∧ i.severity.Rates i.affected.length) ∧
    g.impacts.Pairwise Impact.Precedes ∧
    ∀ h : Graph, (∀ a b, h.Edge a b ↔ g.Edge a b) → h.impacts = g.impacts := by
  refine ⟨?_, ?_, pairwise_precedes_impacts g, fun h hedge => impacts_congr hedge⟩
  · intro node
    have hmem : node ∈ g.impacts.map Impact.target ↔ node ∈ g.targets := by
      simp only [List.mem_map, mem_impacts_iff, mem_targets_iff]
      constructor
      · rintro ⟨i, ⟨-, hedge⟩, rfl⟩
        exact hedge
      · intro hedge
        exact ⟨.ofTarget g.reverse node, ⟨rfl, hedge⟩, rfl⟩
    rw [g.nodup_targets_impacts.count]
    simp only [hmem]
  · intro i hi
    obtain ⟨heq, -⟩ := (mem_impacts_iff g i).mp hi
    rw [heq]
    exact ⟨pairwise_lt_affectedBy _ _, mem_affectedBy_reverse_iff g i.target,
      Severity.rates_ofCount _⟩

def triangle : Graph := .ofPairs [("a", ["b", "c"]), ("b", ["c"])]

/-- The same edges, with nodes and dependencies in another order, one dependency listed twice and a
node that depends on nothing. -/
def shuffledTriangle : Graph := .ofPairs [("b", ["c", "c"]), ("d", []), ("a", ["c", "b"])]

theorem impacts_canonical_shuffledTriangle :
    (∀ a b, shuffledTriangle.Edge a b ↔ triangle.Edge a b) ∧ shuffledTriangle ≠ triangle ∧
    shuffledTriangle.impacts = triangle.impacts ∧
    (triangle.impacts.map Impact.target).count "c" = 1 := by
  have hedge : ∀ a b, shuffledTriangle.Edge a b ↔ triangle.Edge a b := by
    have hshuffled : shuffledTriangle.edges =
        [("b", "c"), ("b", "c"), ("a", "c"), ("a", "b")] := rfl
    have hplain : triangle.edges = [("a", "b"), ("a", "c"), ("b", "c")] := rfl
    intro a b
    rw [← mem_edges_iff, ← mem_edges_iff, hshuffled, hplain]
    simp only [List.mem_cons, List.not_mem_nil, or_false]
    tauto
  obtain ⟨hcount, -, -, hcongr⟩ := impacts_canonical triangle
  exact ⟨hedge, by decide, hcongr shuffledTriangle hedge, hcount "c"⟩

end Graph

end CodeAtlas
