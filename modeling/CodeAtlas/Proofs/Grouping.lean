import CodeAtlas.Proofs.Order
import CodeAtlas.Proofs.Reachability
import CodeAtlas.Proofs.Table

/-!
# Tables that collect

Elements that are pushed one after another stand under their keys, and the keys
stand in the order in which they were first used. Read off from left to right, such
a table holds the elements stably sorted by the first use of their keys. Where an
element is pushed only if it is new, a list holds each element once, in the order of
first appearance.
-/

namespace CodeAtlas.Table

variable {α : Type}

/-- Keys stand in the order in which they were first stored. -/
theorem keys_insertAll_empty (pairs : List (String × α)) :
    ((∅ : Table α).insertAll pairs).keys = (pairs.map Prod.fst).eraseDups := by
  induction pairs using List.reverseRecOn with
  | nil => rfl
  | append_singleton pairs p ih =>
    have hstep : (∅ : Table α).insertAll (pairs ++ [p]) =
        ((∅ : Table α).insertAll pairs).insert p.1 p.2 := List.foldl_append
    rw [hstep, keys_insert, ih, List.map_append, List.map_singleton, Order.eraseDups_concat]
    simp only [List.mem_eraseDups]

theorem getD_foldl_push (key : α → String) (l : List α) (t : Table (List α)) (k : String) :
    ((l.foldl (fun t a => t.push (key a) a) t).get? k).getD [] =
      (t.get? k).getD [] ++ l.filter fun a => key a = k := by
  induction l generalizing t with
  | nil => simp
  | cons a l ih =>
    rw [List.foldl_cons, ih, get?_push]
    by_cases hk : k = key a
    · simp [hk]
    · have hne : ¬key a = k := fun e => hk e.symm
      simp [hk, hne]

/-- A key is there if some element has it, and its list holds all that have it, as they came. -/
theorem get?_foldl_push (key : α → String) (l : List α) (k : String) :
    (l.foldl (fun t a => t.push (key a) a) (∅ : Table (List α))).get? k =
      if (l.filter fun a => key a = k).isEmpty then none
      else some (l.filter fun a => key a = k) := by
  induction l using List.reverseRecOn with
  | nil => rfl
  | append_singleton l a ih =>
    rw [List.foldl_append, List.foldl_cons, List.foldl_nil, get?_push, List.filter_append]
    by_cases hk : k = key a
    · have hkept : [a].filter (fun a => decide (key a = k)) = [a] := by simp [hk]
      rw [if_pos hk, getD_foldl_push, hkept, hk]
      simp
    · have hleft : [a].filter (fun a => decide (key a = k)) = [] := by
        simpa using fun e => hk e.symm
      rw [if_neg hk, ih, hleft, List.append_nil]

theorem keys_foldl_push (key : α → String) (l : List α) :
    (l.foldl (fun t a => t.push (key a) a) (∅ : Table (List α))).keys =
      (l.map key).eraseDups := by
  induction l using List.reverseRecOn with
  | nil => rfl
  | append_singleton l a ih =>
    rw [List.foldl_append, List.foldl_cons, List.foldl_nil, push, keys_insert, ih, List.map_append,
      List.map_singleton, Order.eraseDups_concat]
    simp only [List.mem_eraseDups]

theorem flatten_values_eq (t : Table (List α)) :
    t.values.flatten = t.keys.flatMap fun k => (t.get? k).getD [] := by
  have hvalues : t.values = t.keys.map fun k => (t.get? k).getD [] := by
    rw [values, keys, List.map_map]
    apply List.map_congr_left
    rintro ⟨k, v⟩ hmem
    simp [(mem_entries_iff t k v).mp hmem]
  rw [hvalues, List.flatMap]

/-- Order by the first use of the key. -/
def firstLe (key : α → String) (l : List α) (a b : α) : Bool :=
  decide ((l.map key).idxOf (key a) ≤ (l.map key).idxOf (key b))

theorem sorts_firstLe (key : α → String) (l : List α) : Order.Sorts (firstLe key l) where
  trans a b c hab hbc := by
    simp only [firstLe, decide_eq_true_eq] at *
    omega
  total a b := by
    simp only [firstLe, Bool.or_eq_true, decide_eq_true_eq]
    omega

theorem firstLe_of_key_eq {key : α → String} {l : List α} {a b : α} (h : key a = key b) :
    firstLe key l a b = true := by
  simp [firstLe, h]

/-- Of the list's elements, those are alike with one that have its key. -/
theorem filter_alike_firstLe (key : α → String) {l s : List α} (hs : ∀ b ∈ s, b ∈ l) (a : α) :
    s.filter (Order.alike (firstLe key l) a) = s.filter fun b => key b = key a := by
  apply List.filter_congr
  intro b hb
  rw [Bool.eq_iff_iff, decide_eq_true_eq]
  constructor
  · intro h
    simp only [Order.alike, firstLe, Bool.and_eq_true, decide_eq_true_eq] at h
    exact (List.idxOf_inj (List.mem_map_of_mem (hs b hb))).mp (by omega)
  · intro h
    simp [Order.alike, firstLe_of_key_eq h, firstLe_of_key_eq h.symm]

theorem filter_flatMap_groups (key : α → String) (l : List α) (ks : List String) (k : String)
    (hks : ks.Nodup) :
    (ks.flatMap fun j => l.filter fun b => key b = j).filter (fun b => key b = k) =
      if k ∈ ks then l.filter fun b => key b = k else [] := by
  induction ks with
  | nil => simp
  | cons j ks ih =>
    obtain ⟨hj, hks⟩ := List.nodup_cons.mp hks
    rw [List.flatMap_cons, List.filter_append, ih hks, List.filter_filter]
    by_cases hk : k = j
    · subst hk
      simp [hj]
    · have hnone : (l.filter fun b => decide (key b = k) && decide (key b = j)) = [] := by
        rw [List.filter_eq_nil_iff]
        intro b _ hb
        simp only [Bool.and_eq_true, decide_eq_true_eq] at hb
        exact hk (hb.1.symm.trans hb.2)
      simp [hnone, hk]

/-- From left to right, a table that collects holds its elements by the first use of their keys,
and those of one key as they came. -/
theorem flatten_values_foldl_push (key : α → String) (l : List α) :
    (l.foldl (fun t a => t.push (key a) a) (∅ : Table (List α))).values.flatten =
      l.mergeSort (firstLe key l) := by
  have hgroups : (l.foldl (fun t a => t.push (key a) a) (∅ : Table (List α))).values.flatten =
      (l.map key).eraseDups.flatMap fun k => l.filter fun a => key a = k := by
    simp [flatten_values_eq, keys_foldl_push, getD_foldl_push]
  rw [hgroups]
  symm
  apply (sorts_firstLe key l).mergeSort_eq
  · rw [List.pairwise_flatMap]
    constructor
    · intro k _
      refine List.pairwise_of_forall_mem_list ?_
      intro a ha b hb
      have hka : key a = k := by simpa using (List.mem_filter.mp ha).2
      have hkb : key b = k := by simpa using (List.mem_filter.mp hb).2
      exact firstLe_of_key_eq (hka.trans hkb.symm)
    · refine (Order.pairwise_idxOf_eraseDups (l.map key)).imp ?_
      intro j k hjk a ha b hb
      have hka : key a = j := by simpa using (List.mem_filter.mp ha).2
      have hkb : key b = k := by simpa using (List.mem_filter.mp hb).2
      simp only [firstLe, hka, hkb, decide_eq_true_eq]
      omega
  · intro a
    have hmem : ∀ b ∈ (l.map key).eraseDups.flatMap fun k => l.filter fun a => key a = k,
        b ∈ l := by
      intro b hb
      obtain ⟨k, -, hbk⟩ := List.mem_flatMap.mp hb
      exact (List.mem_filter.mp hbk).1
    rw [filter_alike_firstLe key hmem, filter_alike_firstLe key fun b hb => hb,
      filter_flatMap_groups key l _ (key a) (Order.nodup_eraseDups _)]
    split
    · rfl
    next hnot =>
      symm
      rw [List.filter_eq_nil_iff]
      intro b hb hkey
      apply hnot
      rw [List.mem_eraseDups, ← of_decide_eq_true hkey]
      exact List.mem_map_of_mem hb

variable [BEq α] [LawfulBEq α]

/-- What pairs give to a key, each once and in the order of first appearance. -/
def listed (pairs : List (String × α)) (k : String) : List α :=
  ((pairs.filter fun p => p.1 = k).map Prod.snd).eraseDups

theorem listed_concat (pairs : List (String × α)) (p : String × α) (k : String) :
    listed (pairs ++ [p]) k =
      if k = p.1 then
        if (listed pairs k).contains p.2 then listed pairs k else listed pairs k ++ [p.2]
      else listed pairs k := by
  rw [listed, List.filter_append, List.map_append]
  by_cases hk : k = p.1
  · have hkept : [p].filter (fun p => decide (p.1 = k)) = [p] := by simp [hk]
    rw [hkept, List.map_singleton, Order.eraseDups_concat, if_pos hk]
    simp only [listed, List.contains_iff_mem, List.mem_eraseDups]
  · have hleft : [p].filter (fun p => decide (p.1 = k)) = [] := by
      simpa using fun e => hk e.symm
    rw [hleft, List.map_nil, List.append_nil, if_neg hk, listed]

theorem mem_listed_iff {pairs : List (String × α)} {k : String} {v : α} :
    v ∈ listed pairs k ↔ (k, v) ∈ pairs := by
  simp [listed]

theorem listed_append_congr {pairs pairs' : List (String × α)} {k : String}
    (h : listed pairs k = listed pairs' k) (more : List (String × α)) :
    listed (pairs ++ more) k = listed (pairs' ++ more) k := by
  simp only [listed, List.filter_append, List.map_append]
  exact Order.eraseDups_append_congr h _

/-- Pairs that are there already give nothing new. -/
theorem listed_append_of_mem {pairs more : List (String × α)} {k : String}
    (h : ∀ v, (k, v) ∈ more → (k, v) ∈ pairs) : listed (pairs ++ more) k = listed pairs k := by
  simp only [listed, List.filter_append, List.map_append]
  apply Order.eraseDups_append_of_mem
  intro v hv
  simpa using h v (by simpa using hv)

/-- A key is there if some pair has it, and its list holds what the pairs give. -/
theorem get?_foldl_pushNew (pairs : List (String × α)) (k : String) :
    (pairs.foldl (fun t p => t.pushNew p.1 p.2) (∅ : Table (List α))).get? k =
      if (listed pairs k).isEmpty then none else some (listed pairs k) := by
  induction pairs using List.reverseRecOn with
  | nil => rfl
  | append_singleton pairs p ih =>
    have hheld : ((pairs.foldl (fun t p => t.pushNew p.1 p.2) (∅ : Table (List α))).get? k).getD
        [] = listed pairs k := by
      rw [ih]
      split
      next hempty => simpa using hempty.symm
      next => rfl
    rw [List.foldl_append, List.foldl_cons, List.foldl_nil, pushNew, get?_insert, listed_concat]
    by_cases hk : k = p.1
    · rw [if_pos hk, if_pos hk, ← hk, hheld]
      split
      next hmem => cases hlisted : listed pairs k <;> simp_all
      next => simp
    · rw [if_neg hk, if_neg hk, ih]

/-- Repetitions push nothing. -/
theorem foldl_pushNew_eraseDups (pairs : List (String × α)) :
    pairs.eraseDups.foldl (fun t p => t.pushNew p.1 p.2) (∅ : Table (List α)) =
      pairs.foldl (fun t p => t.pushNew p.1 p.2) ∅ := by
  induction pairs using List.reverseRecOn with
  | nil => rfl
  | append_singleton pairs p ih =>
    rw [Order.eraseDups_concat, List.foldl_append, List.foldl_cons, List.foldl_nil]
    split
    next hp =>
      have hlisted : p.2 ∈ listed pairs p.1 := mem_listed_iff.mpr hp
      have hheld : (pairs.foldl (fun t p => t.pushNew p.1 p.2) (∅ : Table (List α))).get? p.1 =
          some (listed pairs p.1) := by
        rw [get?_foldl_pushNew, if_neg (by simpa using List.ne_nil_of_mem hlisted)]
      rw [ih, pushNew, hheld, Option.getD_some, if_pos (List.contains_iff_mem.mpr hlisted),
        insert_of_get?_eq hheld]
    next => rw [List.foldl_append, ih, List.foldl_cons, List.foldl_nil]

end CodeAtlas.Table
