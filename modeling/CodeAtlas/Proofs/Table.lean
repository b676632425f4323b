import CodeAtlas.Table
import Mathlib.Data.List.Basic

/-!
# What a table holds

Looking up a key after storing gives the stored value under that key and the
former one under every other. All further lemmas speak of a table through its
lookup, so the order of the entries does not enter into them.
-/

namespace CodeAtlas.Table

variable {α : Type}

@[simp] theorem get?_empty (key : String) : (∅ : Table α).get? key = none := rfl

theorem lookup_cons_ite (key k : String) (v : α) (l : List (String × α)) :
    ((key, v) :: l).lookup k = if k = key then some v else l.lookup k := by
  rw [List.lookup_cons]
  by_cases h : k = key
  · simp [h]
  · have hb : (k == key) = false := by simpa using h
    simp [hb, h]

theorem lookup_putPair (key k : String) (v : α) (l : List (String × α)) :
    (putPair key v l).lookup k = if k = key then some v else l.lookup k := by
  induction l with
  | nil => simp [putPair, lookup_cons_ite]
  | cons p rest ih =>
    obtain ⟨k', w⟩ := p
    rw [putPair]
    by_cases hk : k' = key
    · subst hk
      by_cases h : k = k' <;> simp [lookup_cons_ite, h]
    · rw [if_neg hk, lookup_cons_ite, lookup_cons_ite, ih]
      by_cases h : k = k' <;> simp [h, hk]

@[simp] theorem get?_insert (t : Table α) (key k : String) (v : α) :
    (t.insert key v).get? k = if k = key then some v else t.get? k :=
  lookup_putPair key k v t.entries

theorem get?_push (t : Table (List α)) (key k : String) (v : α) :
    (t.push key v).get? k = if k = key then some ((t.get? key).getD [] ++ [v]) else t.get? k :=
  get?_insert t key k _

/-- An entry is what its key is looked up to, since keys are distinct. -/
theorem mem_entries_iff (t : Table α) (key : String) (v : α) :
    (key, v) ∈ t.entries ↔ t.get? key = some v := by
  obtain ⟨l, hnd⟩ := t
  change (key, v) ∈ l ↔ l.lookup key = some v
  induction l with
  | nil => simp
  | cons p rest ih =>
    obtain ⟨k, w⟩ := p
    obtain ⟨hk, hrest⟩ := List.nodup_cons.mp hnd
    rw [lookup_cons_ite, List.mem_cons]
    by_cases h : key = k
    · subst h
      have hnot : (key, v) ∉ rest := fun hm => hk (List.mem_map.mpr ⟨_, hm, rfl⟩)
      simp [hnot, eq_comm]
    · simp [h, ih hrest]

theorem eq_of_entries_eq {t u : Table α} (h : t.entries = u.entries) : t = u := by
  cases t
  cases u
  cases h
  rfl

theorem mem_keys_iff {t : Table α} {key : String} :
    key ∈ t.keys ↔ ∃ v, t.get? key = some v := by
  simp only [keys, List.mem_map, Prod.exists, exists_and_right, exists_eq_right, mem_entries_iff]

/-- A table is known by the order of its keys and what is found under them. -/
theorem eq_of_keys_eq {t u : Table α} (hkeys : t.keys = u.keys)
    (hget : ∀ key, t.get? key = u.get? key) : t = u := by
  have hread : ∀ w : Table α, w.entries.map (fun p => (p.1, some p.2)) =
      w.keys.map fun key => (key, w.get? key) := by
    intro w
    rw [keys, List.map_map]
    apply List.map_congr_left
    rintro ⟨key, v⟩ hmem
    exact Prod.ext rfl ((mem_entries_iff w key v).mp hmem).symm
  have hinjective : Function.Injective fun p : String × α => (p.1, some p.2) := by
    rintro ⟨key, v⟩ ⟨key', v'⟩ h
    simpa using h
  apply eq_of_entries_eq
  apply List.map_injective_iff.mpr hinjective
  rw [hread, hread, hkeys]
  exact List.map_congr_left fun key _ => by rw [hget]

/-- Storing what is there changes nothing. -/
theorem insert_of_get?_eq {t : Table α} {key : String} {v : α} (h : t.get? key = some v) :
    t.insert key v = t := by
  refine eq_of_keys_eq ?_ ?_
  · rw [keys_insert, if_pos (mem_keys_iff.mpr ⟨v, h⟩)]
  · intro k
    rw [get?_insert]
    split
    next hk => rw [hk, h]
    next => rfl

/-- Sorting keeps every entry. -/
theorem mem_sorted_iff (t : Table α) (key : String) (v : α) :
    (key, v) ∈ t.sorted ↔ t.get? key = some v := by
  rw [sorted, List.mem_mergeSort, mem_entries_iff]

/-- Of several pairs with one key the last one is stored. -/
theorem get?_insertAll (t : Table α) (pairs : List (String × α)) (key : String) :
    (t.insertAll pairs).get? key = (pairs.reverse.lookup key).or (t.get? key) := by
  induction pairs generalizing t with
  | nil => simp [insertAll]
  | cons p rest ih =>
    have hstep : t.insertAll (p :: rest) = (t.insert p.1 p.2).insertAll rest := rfl
    rw [hstep, ih, get?_insert, List.reverse_cons, List.lookup_append, Option.or_assoc]
    congr 1
    have hlast : [p].lookup key = if key = p.1 then some p.2 else none :=
      lookup_cons_ite p.1 key p.2 []
    rw [hlast]
    split <;> simp

theorem exists_lookup_of_mem {pairs : List (String × α)} {p : String × α} (h : p ∈ pairs) :
    ∃ v, pairs.reverse.lookup p.1 = some v := by
  cases hlookup : pairs.reverse.lookup p.1 with
  | some v => exact ⟨v, rfl⟩
  | none =>
    have hne := List.lookup_eq_none_iff.mp hlookup p (List.mem_reverse.mpr h)
    simp at hne

theorem keys_insertAll_of_mem {t : Table α} {pairs : List (String × α)}
    (h : ∀ p ∈ pairs, p.1 ∈ t.keys) : (t.insertAll pairs).keys = t.keys := by
  induction pairs generalizing t with
  | nil => rfl
  | cons p rest ih =>
    have hkept : (t.insert p.1 p.2).keys = t.keys := by
      rw [keys_insert, if_pos (h p List.mem_cons_self)]
    have hrest := ih (t := t.insert p.1 p.2) fun q hq => by
      rw [hkept]
      exact h q (List.mem_cons_of_mem p hq)
    exact hrest.trans hkept

/-- Storing the same pairs once more changes nothing, even if keys are repeated among them. -/
theorem insertAll_insertAll (t : Table α) (pairs : List (String × α)) :
    (t.insertAll pairs).insertAll pairs = t.insertAll pairs := by
  refine eq_of_keys_eq (keys_insertAll_of_mem ?_) ?_
  · intro p hp
    obtain ⟨v, hv⟩ := exists_lookup_of_mem hp
    rw [mem_keys_iff, get?_insertAll, hv]
    exact ⟨v, rfl⟩
  · intro key
    rw [get?_insertAll, get?_insertAll, ← Option.or_assoc, Option.or_self]

theorem lookup_reverse_eq_none {pairs : List (String × α)} {key : String}
    (h : ∀ p ∈ pairs, p.1 ≠ key) : pairs.reverse.lookup key = none := by
  rw [List.lookup_eq_none_iff]
  intro p hp
  simpa using (h p (List.mem_reverse.mp hp)).symm

theorem get?_insertAll_of_not_mem (t : Table α) {pairs : List (String × α)} {key : String}
    (h : ∀ p ∈ pairs, p.1 ≠ key) : (t.insertAll pairs).get? key = t.get? key := by
  rw [get?_insertAll, lookup_reverse_eq_none h, Option.none_or]

theorem get?_insertAll_of_last (t : Table α) (earlier : List (String × α)) (key : String) (v : α)
    {later : List (String × α)} (h : ∀ p ∈ later, p.1 ≠ key) :
    (t.insertAll (earlier ++ (key, v) :: later)).get? key = some v := by
  rw [get?_insertAll, List.reverse_append, List.reverse_cons, List.append_assoc,
    List.lookup_append, lookup_reverse_eq_none h, List.singleton_append, lookup_cons_ite]
  simp

theorem get?_ofPairs (pairs : List (String × α)) (key : String) :
    (ofPairs pairs).get? key = pairs.reverse.lookup key := by
  rw [ofPairs, get?_insertAll]
  simp [empty, get?]

theorem putPair_of_not_mem {key : String} (v : α) {l : List (String × α)}
    (h : key ∉ l.map Prod.fst) : putPair key v l = l ++ [(key, v)] := by
  induction l with
  | nil => rfl
  | cons p rest ih =>
    obtain ⟨hkey, hrest⟩ : key ≠ p.1 ∧ key ∉ rest.map Prod.fst := by
      simpa only [List.map_cons, List.mem_cons, not_or] using h
    rw [putPair, if_neg (Ne.symm hkey), ih hrest, List.cons_append]

theorem entries_insertAll (t : Table α) {pairs : List (String × α)}
    (h : ((t.entries ++ pairs).map Prod.fst).Nodup) :
    (t.insertAll pairs).entries = t.entries ++ pairs := by
  induction pairs generalizing t with
  | nil => simp [insertAll]
  | cons p rest ih =>
    have hnew : p.1 ∉ t.entries.map Prod.fst := by
      intro hmem
      rw [List.map_append, List.nodup_append] at h
      exact h.2.2 p.1 hmem p.1 List.mem_cons_self rfl
    have hstep : (t.insert p.1 p.2).entries = t.entries ++ [p] := putPair_of_not_mem p.2 hnew
    have hrest := ih (t.insert p.1 p.2) (by rwa [hstep, List.append_assoc])
    rw [hstep, List.append_assoc] at hrest
    exact hrest

/-- Pairs with distinct keys are stored as they are. -/
theorem ofPairs_of_nodup {pairs : List (String × α)} (h : (pairs.map Prod.fst).Nodup) :
    ofPairs pairs = ⟨pairs, h⟩ :=
  eq_of_entries_eq (entries_insertAll ∅ h)

end CodeAtlas.Table
