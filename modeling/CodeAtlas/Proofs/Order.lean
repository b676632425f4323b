import Mathlib.Data.List.Induction
import Mathlib.Data.List.Infix

/-!
# Sorting and first appearance

A stable sort is known by two things: its result ascends, and the elements that
compare alike stand in it as they stood before. From this follow the laws that
sorting commutes with leaving elements out, and that sorting by one measure and
then by another is sorting by the second first. Leaving out repetitions keeps the
elements in the order of their first appearance.
-/

namespace CodeAtlas.Order

variable {α : Type}

/-- A comparison that can be sorted by. -/
structure Sorts (le : α → α → Bool) : Prop where
  trans : ∀ a b c, le a b = true → le b c = true → le a c = true
  total : ∀ a b, (le a b || le b a) = true

/-- Neither of two elements comes strictly before the other. -/
def alike (le : α → α → Bool) (a b : α) : Bool := le a b && le b a

/-- Only how the elements of the list compare matters. -/
theorem mergeSort_congr {le le' : α → α → Bool} {l : List α}
    (h : ∀ a ∈ l, ∀ b ∈ l, le a b = le' a b) : l.mergeSort le = l.mergeSort le' := by
  have hmap := List.map_mergeSort (r := le) (s := le') (f := id) (l := l) h
  simpa using hmap

/-- Comparison by `le`, and of what is alike in it by `le'`. -/
def lex (le le' : α → α → Bool) (a b : α) : Bool := le a b && (!le b a || le' a b)

theorem filter_alike_lex (le le' : α → α → Bool) (a : α) (l : List α) :
    l.filter (alike (lex le le') a) = (l.filter (alike le a)).filter (alike le' a) := by
  have hboth : alike (lex le le') a = fun b => alike le' a b && alike le a b := by
    funext b
    simp only [alike, lex]
    cases le a b <;> cases le b a <;> simp
  rw [hboth, List.filter_filter]

namespace Sorts

variable {le le' : α → α → Bool}

theorem refl (h : Sorts le) (a : α) : le a a = true := by
  simpa using h.total a a

theorem alike_self (h : Sorts le) (a : α) : alike le a a = true := by
  simp [alike, h.refl a]

/-- What is alike with one element is alike with each other. -/
theorem le_of_alike (h : Sorts le) {a b c : α} (hb : alike le a b = true)
    (hc : alike le a c = true) : le b c = true := by
  simp only [alike, Bool.and_eq_true] at hb hc
  exact h.trans b a c hb.2 hc.1

theorem lex (h : Sorts le) (h' : Sorts le') : Sorts (lex le le') where
  trans a b c hab hbc := by
    simp only [Order.lex, Bool.and_eq_true, Bool.or_eq_true, Bool.not_eq_true'] at *
    refine ⟨h.trans a b c hab.1 hbc.1, ?_⟩
    cases hca : le c a with
    | false => exact .inl rfl
    | true =>
      have hba : le b a = true := h.trans b c a hbc.1 hca
      have hcb : le c b = true := h.trans c a b hca hab.1
      have hab' : le' a b = true := hab.2.resolve_left (by simp [hba])
      have hbc' : le' b c = true := hbc.2.resolve_left (by simp [hcb])
      exact .inr (h'.trans a b c hab' hbc')
  total a b := by
    have hle := h.total a b
    have hle' := h'.total a b
    simp only [Order.lex]
    cases hab : le a b <;> cases hba : le b a <;> simp_all

/-- The elements that are alike keep their order. -/
theorem filter_mergeSort_alike (h : Sorts le) (l : List α) (a : α) :
    (l.mergeSort le).filter (alike le a) = l.filter (alike le a) := by
  have hpairwise : (l.filter (alike le a)).Pairwise fun b c => le b c = true := by
    refine List.pairwise_of_forall_mem_list ?_
    intro b hb c hc
    exact h.le_of_alike (List.mem_filter.mp hb).2 (List.mem_filter.mp hc).2
  have hsublist : (l.filter (alike le a)).Sublist (l.mergeSort le) :=
    List.sublist_mergeSort h.trans h.total hpairwise List.filter_sublist
  have hfilter := hsublist.filter (alike le a)
  rw [List.filter_filter, show (fun b => alike le a b && alike le a b) = alike le a by simp]
    at hfilter
  exact (hfilter.eq_of_length ((List.mergeSort_perm l le).filter _).length_eq.symm).symm

/-- Lists that ascend are equal if elements that are alike stand in the same order in both. -/
theorem eq_of_filter_alike (h : Sorts le) {l₁ l₂ : List α}
    (h₁ : l₁.Pairwise fun a b => le a b = true) (h₂ : l₂.Pairwise fun a b => le a b = true)
    (hfilter : ∀ a, l₁.filter (alike le a) = l₂.filter (alike le a)) : l₁ = l₂ := by
  induction l₁ generalizing l₂ with
  | nil =>
    cases l₂ with
    | nil => rfl
    | cons b l₂ =>
      have hb := hfilter b
      rw [List.filter_cons_of_pos (h.alike_self b)] at hb
      cases hb
  | cons a l₁ ih =>
    cases l₂ with
    | nil =>
      have ha := hfilter a
      rw [List.filter_cons_of_pos (h.alike_self a)] at ha
      cases ha
    | cons b l₂ =>
      have hmem_a : a ∈ b :: l₂ := by
        have ha : a ∈ (b :: l₂).filter (alike le a) := by
          rw [← hfilter a, List.filter_cons_of_pos (h.alike_self a)]
          exact List.mem_cons_self
        exact (List.mem_filter.mp ha).1
      have hmem_b : b ∈ a :: l₁ := by
        have hb : b ∈ (a :: l₁).filter (alike le b) := by
          rw [hfilter b, List.filter_cons_of_pos (h.alike_self b)]
          exact List.mem_cons_self
        exact (List.mem_filter.mp hb).1
      -- each head is least in both lists, so the heads are alike and the first of their kind
      have hab : alike le a b = true := by
        have hle : le a b = true := by
          rcases List.mem_cons.mp hmem_b with rfl | hb
          · exact h.refl b
          · exact (List.pairwise_cons.mp h₁).1 b hb
        have hge : le b a = true := by
          rcases List.mem_cons.mp hmem_a with rfl | ha
          · exact h.refl a
          · exact (List.pairwise_cons.mp h₂).1 a ha
        simp [alike, hle, hge]
      have hhead := hfilter a
      rw [List.filter_cons_of_pos (h.alike_self a), List.filter_cons_of_pos hab] at hhead
      obtain ⟨rfl, -⟩ := List.cons.inj hhead
      rw [ih (List.pairwise_cons.mp h₁).2 (List.pairwise_cons.mp h₂).2]
      intro c
      have hc := hfilter c
      rw [List.filter_cons, List.filter_cons] at hc
      split at hc
      · exact (List.cons.inj hc).2
      · exact hc

/-- The sorted list is the only one that ascends and keeps the order of what is alike. -/
theorem mergeSort_eq (h : Sorts le) {l s : List α} (hs : s.Pairwise fun a b => le a b = true)
    (hfilter : ∀ a, s.filter (alike le a) = l.filter (alike le a)) : l.mergeSort le = s := by
  apply h.eq_of_filter_alike (List.pairwise_mergeSort h.trans h.total l) hs
  intro a
  rw [h.filter_mergeSort_alike, hfilter]

theorem filter_mergeSort (h : Sorts le) (p : α → Bool) (l : List α) :
    (l.mergeSort le).filter p = (l.filter p).mergeSort le := by
  symm
  apply h.mergeSort_eq ((List.pairwise_mergeSort h.trans h.total l).filter p)
  intro a
  rw [List.filter_comm, h.filter_mergeSort_alike, List.filter_comm]

/-- What holds between the elements that are alike, each with those behind it, holds after
sorting. -/
theorem pairwise_mergeSort_of_alike (h : Sorts le) {R : α → α → Prop} {l : List α}
    (hl : l.Pairwise fun a b => alike le a b = true → R a b) :
    (l.mergeSort le).Pairwise fun a b => alike le a b = true → R a b := by
  rw [List.pairwise_iff_forall_sublist] at hl ⊢
  intro a b hab halike
  have hkept := hab.filter (alike le a)
  rw [h.filter_mergeSort_alike, List.filter_cons_of_pos (h.alike_self a),
    List.filter_cons_of_pos halike, List.filter_nil] at hkept
  exact hl (hkept.trans List.filter_sublist) halike

/-- A second measure has no effect if what is alike in the first ascends by it already. -/
theorem mergeSort_lex_of_pairwise (h : Sorts le) (h' : Sorts le') {l : List α}
    (hl : l.Pairwise fun a b => alike le a b = true → le' a b = true) :
    l.mergeSort (Order.lex le le') = l.mergeSort le := by
  apply (h.lex h').mergeSort_eq
  · have hle := List.pairwise_mergeSort h.trans h.total l
    refine (hle.and (h.pairwise_mergeSort_of_alike hl)).imp ?_
    rintro a b ⟨hab, halike⟩
    cases hba : le b a with
    | false => simp [Order.lex, hab, hba]
    | true => simp [Order.lex, hab, hba, halike (by simp [alike, hab, hba])]
  · intro a
    rw [filter_alike_lex, filter_alike_lex, h.filter_mergeSort_alike]

/-- Sorting by one measure and then by another is sorting by the other one first. -/
theorem mergeSort_mergeSort (h : Sorts le) (h' : Sorts le') (l : List α) :
    (l.mergeSort le').mergeSort le = l.mergeSort (Order.lex le le') := by
  have hpairwise := List.pairwise_mergeSort h'.trans h'.total l
  have halike : (l.mergeSort le').Pairwise fun a b => alike le a b = true → le' a b = true := by
    refine hpairwise.imp ?_
    intro a b hab _
    exact hab
  rw [← h.mergeSort_lex_of_pairwise h' halike]
  apply (h.lex h').mergeSort_eq
    (List.pairwise_mergeSort (h.lex h').trans (h.lex h').total l)
  intro a
  rw [(h.lex h').filter_mergeSort_alike, filter_alike_lex, filter_alike_lex, List.filter_comm,
    List.filter_comm (l := l.mergeSort le'), h'.filter_mergeSort_alike]

end Sorts

theorem sorts_name (name : α → String) : Sorts fun a b => decide (name a ≤ name b) where
  trans a b c hab hbc := by
    simp only [decide_eq_true_eq] at *
    exact String.le_trans hab hbc
  total a b := by
    simp only [Bool.or_eq_true, decide_eq_true_eq]
    exact String.le_total (name a) (name b)

/-- What is sorted by names that are all different ascends strictly. -/
theorem pairwise_lt_mergeSort (name : α → String) {l : List α} (h : (l.map name).Nodup) :
    (l.mergeSort fun a b => decide (name a ≤ name b)).Pairwise fun a b => name a < name b := by
  have hle := List.pairwise_mergeSort (sorts_name name).trans (sorts_name name).total l
  have hperm := List.mergeSort_perm l fun a b => decide (name a ≤ name b)
  have hne := List.pairwise_map.mp ((hperm.map name).nodup_iff.mpr h)
  refine (hle.and hne).imp ?_
  rintro a b ⟨hab, hdiffer⟩
  refine Decidable.byContradiction fun hlt => hdiffer ?_
  exact String.le_antisymm (of_decide_eq_true hab) (String.not_lt.mp hlt)

variable [BEq α] [LawfulBEq α]

theorem eraseDups_concat (l : List α) (a : α) :
    (l ++ [a]).eraseDups = if a ∈ l then l.eraseDups else l.eraseDups ++ [a] := by
  rw [List.eraseDups_append]
  by_cases ha : a ∈ l
  · simp [List.removeAll, ha]
  · simp [List.removeAll, ha, List.eraseDups_cons]

theorem nodup_eraseDups (l : List α) : l.eraseDups.Nodup := by
  induction hn : l.length using Nat.strong_induction_on generalizing l with
  | _ n ih =>
    cases l with
    | nil => simp
    | cons a rest =>
      rw [List.eraseDups_cons, List.nodup_cons, List.mem_eraseDups]
      refine ⟨by simp, ih _ ?_ _ rfl⟩
      have hle := List.length_filter_le (fun b => !b == a) rest
      rw [List.length_cons] at hn
      omega

theorem eraseDups_sublist (l : List α) : l.eraseDups.Sublist l := by
  induction l using List.reverseRecOn with
  | nil => simp
  | append_singleton l a ih =>
    rw [eraseDups_concat]
    split
    · exact ih.trans (List.sublist_append_left l [a])
    · exact ih.append_right [a]

/-- Elements that are there already give nothing new. -/
theorem eraseDups_append_of_mem {l more : List α} (h : ∀ a ∈ more, a ∈ l) :
    (l ++ more).eraseDups = l.eraseDups := by
  have hnone : more.removeAll l = [] := by simpa [List.removeAll] using h
  rw [List.eraseDups_append, hnone, List.eraseDups_nil, List.append_nil]

theorem eraseDups_append_of_not_mem {l more : List α} (h : ∀ a ∈ more, a ∉ l) :
    (l ++ more).eraseDups = l.eraseDups ++ more.eraseDups := by
  have hall : more.removeAll l = more := by simpa [List.removeAll] using h
  rw [List.eraseDups_append, hall]

theorem eraseDups_append_congr {l l' : List α} (h : l.eraseDups = l'.eraseDups) (more : List α) :
    (l ++ more).eraseDups = (l' ++ more).eraseDups := by
  have hmem : ∀ a, a ∈ l ↔ a ∈ l' := by
    intro a
    rw [← List.mem_eraseDups, h, List.mem_eraseDups]
  have hnew : more.removeAll l = more.removeAll l' := by simp [List.removeAll, hmem]
  rw [List.eraseDups_append, List.eraseDups_append, h, hnew]

theorem filter_eraseDups (p : α → Bool) (l : List α) :
    l.eraseDups.filter p = (l.filter p).eraseDups := by
  induction l using List.reverseRecOn with
  | nil => rfl
  | append_singleton l a ih =>
    rw [eraseDups_concat, List.filter_append]
    by_cases hp : p a = true
    · have hmem : a ∈ l.filter p ↔ a ∈ l := by simp [hp]
      rw [List.filter_cons_of_pos hp, List.filter_nil, eraseDups_concat]
      simp only [hmem, ← ih]
      split
      · rfl
      · rw [List.filter_append, List.filter_cons_of_pos hp, List.filter_nil]
    · rw [List.filter_cons_of_neg hp, List.filter_nil, List.append_nil, ← ih]
      split
      · rfl
      · rw [List.filter_append, List.filter_cons_of_neg hp, List.filter_nil, List.append_nil]

/-- What elements give, each once, depends only on the elements, each once. -/
theorem eraseDups_flatMap_eraseDups {β : Type} [BEq β] [LawfulBEq β] (g : α → List β)
    (l : List α) : (l.eraseDups.flatMap g).eraseDups = (l.flatMap g).eraseDups := by
  induction l using List.reverseRecOn with
  | nil => rfl
  | append_singleton l a ih =>
    rw [eraseDups_concat, List.flatMap_append, List.flatMap_singleton]
    split
    next ha =>
      rw [ih]
      refine (eraseDups_append_of_mem ?_).symm
      intro b hb
      exact List.mem_flatMap.mpr ⟨a, ha, hb⟩
    next =>
      rw [List.flatMap_append, List.flatMap_singleton]
      exact eraseDups_append_congr ih (g a)

/-- A stable sort puts repetitions behind what they repeat. -/
theorem Sorts.eraseDups_mergeSort {le : α → α → Bool} (h : Sorts le) (l : List α) :
    (l.mergeSort le).eraseDups = l.eraseDups.mergeSort le := by
  have hsorted := List.pairwise_mergeSort h.trans h.total l
  refine (h.mergeSort_eq (hsorted.sublist (eraseDups_sublist _)) ?_).symm
  intro a
  rw [filter_eraseDups, filter_eraseDups, h.filter_mergeSort_alike]

/-- Without repetitions, elements stand in the order of their first appearance. -/
theorem pairwise_idxOf_eraseDups (l : List α) :
    l.eraseDups.Pairwise fun a b => l.idxOf a < l.idxOf b := by
  induction l using List.reverseRecOn with
  | nil => simp
  | append_singleton l a ih =>
    have hold : l.eraseDups.Pairwise fun b c => (l ++ [a]).idxOf b < (l ++ [a]).idxOf c := by
      refine ih.imp_of_mem ?_
      intro b c hb hc hlt
      rw [List.mem_eraseDups] at hb hc
      rwa [List.idxOf_append_of_mem hb, List.idxOf_append_of_mem hc]
    rw [eraseDups_concat]
    split
    · exact hold
    next ha =>
      refine List.pairwise_append.mpr ⟨hold, List.pairwise_singleton _ _, ?_⟩
      intro b hb c hc
      rw [List.mem_eraseDups] at hb
      rw [List.mem_singleton.mp hc, List.idxOf_append_of_mem hb, List.idxOf_append_of_notMem ha]
      have hlt := List.idxOf_lt_length_of_mem hb
      omega

end CodeAtlas.Order
