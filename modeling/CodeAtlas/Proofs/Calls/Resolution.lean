import CodeAtlas.Proofs.Grouping
import CodeAtlas.Resolution
import Mathlib.Data.List.Sort

/-!
# What a merged index holds and what call sites mean in it

In an index that is merged from findings every declaration stands under its own id,
and it is the last one with this id. The call sites are all those of the findings,
by the first use of what they name. A resolver sees the declarations by ascending
id, so it depends on which declarations there are and not on the order in which
they came.
-/

namespace CodeAtlas

namespace Index

/-- The index of some findings, merged one after another. -/
def merge (base : String) (fs : List Findings) : Index := fs.foldl add { root := base }

theorem symbols_foldl_add (x : Index) (fs : List Findings) :
    (fs.foldl add x).symbols =
      x.symbols.insertAll ((fs.flatMap Findings.symbols).map fun s => (s.id, s)) := by
  induction fs generalizing x with
  | nil => rfl
  | cons f fs ih =>
    rw [List.foldl_cons, ih, List.flatMap_cons, List.map_append, Table.insertAll,
      Table.insertAll, List.foldl_append]
    rfl

theorem get?_symbols_merge (base : String) (fs : List Findings) (id : String) :
    (merge base fs).symbols.get? id =
      ((fs.flatMap Findings.symbols).map fun s => (s.id, s)).reverse.lookup id := by
  rw [merge, symbols_foldl_add, Table.get?_insertAll]
  simp

theorem mem_and_id_of_lookup {ds : List Symbol} {id : String} {s : Symbol}
    (h : (ds.map fun s => (s.id, s)).reverse.lookup id = some s) : s ∈ ds ∧ s.id = id := by
  obtain ⟨l₁, l₂, hl, -⟩ := List.lookup_eq_some_iff.mp h
  have hmem : (id, s) ∈ (ds.map fun s => (s.id, s)).reverse := by simp [hl]
  obtain ⟨d, hd, heq⟩ := List.mem_map.mp (List.mem_reverse.mp hmem)
  cases heq
  exact ⟨hd, rfl⟩

/-- Every declaration stands under its own id. -/
def KeyedById (x : Index) : Prop := ∀ id s, x.symbols.get? id = some s → s.id = id

theorem keyedById_merge (base : String) (fs : List Findings) : (merge base fs).KeyedById := by
  intro id s hs
  rw [get?_symbols_merge] at hs
  exact (mem_and_id_of_lookup hs).2

theorem mem_values_iff {x : Index} {s : Symbol} :
    s ∈ x.symbols.values ↔ ∃ id, x.symbols.get? id = some s := by
  simp only [Table.values, List.mem_map, Prod.exists, exists_eq_right, Table.mem_entries_iff]

theorem KeyedById.nodup_ids {x : Index} (h : x.KeyedById) :
    (x.symbols.values.map Symbol.id).Nodup := by
  have hids : x.symbols.values.map Symbol.id = x.symbols.keys := by
    rw [Table.values, Table.keys, List.map_map]
    apply List.map_congr_left
    rintro ⟨id, s⟩ hmem
    exact h id s ((Table.mem_entries_iff _ _ _).mp hmem)
  rw [hids]
  exact x.symbols.nodup_keys

theorem references_foldl_add (x : Index) (fs : List Findings) :
    (fs.foldl add x).references =
      (fs.flatMap Findings.references).foldl (fun t r => t.push r.key r) x.references := by
  induction fs generalizing x with
  | nil => rfl
  | cons f fs ih =>
    rw [List.foldl_cons, ih, List.flatMap_cons, List.foldl_append]
    rfl

/-- Call sites stand by the first use of what they name. -/
theorem allReferences_merge (base : String) (fs : List Findings) :
    (merge base fs).allReferences =
      (fs.flatMap Findings.references).mergeSort
        (Table.firstLe Reference.key (fs.flatMap Findings.references)) := by
  rw [allReferences, merge, references_foldl_add]
  exact Table.flatten_values_foldl_push Reference.key _

theorem mem_allReferences_merge_iff {base : String} {fs : List Findings} {r : Reference} :
    r ∈ (merge base fs).allReferences ↔ ∃ f ∈ fs, r ∈ f.references := by
  rw [allReferences_merge, List.mem_mergeSort, List.mem_flatMap]

end Index

namespace Resolver

theorem mem_ordered_iff {x : Index} {s : Symbol} :
    s ∈ ordered x ↔ ∃ id, x.symbols.get? id = some s := by
  rw [ordered, List.mem_mergeSort, Index.mem_values_iff]

theorem pairwise_ordered {x : Index} (hx : x.KeyedById) :
    (ordered x).Pairwise fun a b => a.id < b.id :=
  Order.pairwise_lt_mergeSort Symbol.id hx.nodup_ids

/-- Declarations by ascending id leave no choice of their order. -/
theorem eq_of_ascending {ds es : List Symbol} (hds : ds.Pairwise fun a b => a.id < b.id)
    (hes : es.Pairwise fun a b => a.id < b.id) (h : ∀ s, s ∈ ds ↔ s ∈ es) : ds = es := by
  have hirrefl : Std.Irrefl fun a b : Symbol => a.id < b.id := ⟨fun a => String.lt_irrefl a.id⟩
  have hantisymm : Std.Antisymm fun a b : Symbol => a.id < b.id :=
    ⟨fun a b hab hba => absurd (String.lt_trans hab hba) (String.lt_irrefl a.id)⟩
  exact hds.eq_of_mem_iff hes h

/-- The resolver's order depends only on what the ids stand for. -/
theorem ordered_eq_of_get?_eq {x y : Index} (hx : x.KeyedById) (hy : y.KeyedById)
    (h : ∀ id, x.symbols.get? id = y.symbols.get? id) : ordered x = ordered y := by
  apply eq_of_ascending (pairwise_ordered hx) (pairwise_ordered hy)
  intro s
  simp only [mem_ordered_iff, h]

theorem ofIndex_eq_of_get?_eq {x y : Index} (hx : x.KeyedById) (hy : y.KeyedById)
    (h : ∀ id, x.symbols.get? id = y.symbols.get? id) : ofIndex x = ofIndex y := by
  rw [ofIndex, ofIndex, ordered_eq_of_get?_eq hx hy h]

theorem methods_foldl_enter (ds : List Symbol) (r : Resolver) :
    (ds.foldl enter r).methods =
      (ds.filter fun s => s.kind = .method).foldl (fun t s => t.push s.shortName s) r.methods := by
  induction ds generalizing r with
  | nil => rfl
  | cons s ds ih =>
    rw [List.foldl_cons, ih]
    by_cases hs : s.kind = .method
    · simp [enter, hs]
    · simp [enter, hs]

theorem isWildcard_iff {ref : Reference} :
    ref.isWildcard = true ↔ ∃ name, ref.key = wildcardMark ++ name := by
  rw [Reference.isWildcard, List.isPrefixOf_iff_prefix]
  constructor
  · rintro ⟨rest, hrest⟩
    refine ⟨String.ofList rest, ?_⟩
    rw [← String.toList_inj, String.toList_append, String.toList_ofList, hrest]
  · rintro ⟨name, hname⟩
    rw [hname, String.toList_append]
    exact List.prefix_append _ _

theorem resolve_wildcard (x : Index) {ref : Reference} {name : String}
    (h : ref.key = wildcardMark ++ name) :
    (ofIndex x).resolve ref =
      (ordered x).filter fun s => s.kind = .method ∧ s.shortName = name := by
  have hname : String.ofList (ref.key.toList.drop wildcardMark.length) = name := by
    simp [h, ← String.length_toList]
  rw [resolve, if_pos (isWildcard_iff.mpr ⟨name, h⟩), hname, ofIndex, methods_foldl_enter,
    Table.getD_foldl_push, List.filter_filter]
  simp [Bool.and_comm]

/-- A key behind the wildcard mark stands for every method of that name. -/
theorem mem_resolve_wildcard_iff {x : Index} {ref : Reference} {name : String} {s : Symbol}
    (h : ref.key = wildcardMark ++ name) :
    s ∈ (ofIndex x).resolve ref ↔
      (∃ id, x.symbols.get? id = some s) ∧ s.kind = .method ∧ s.shortName = name := by
  rw [resolve_wildcard x h, List.mem_filter, mem_ordered_iff, decide_eq_true_eq]

end Resolver

end CodeAtlas
