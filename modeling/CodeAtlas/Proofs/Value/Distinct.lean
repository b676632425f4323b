import CodeAtlas.Proofs.Outcome
import CodeAtlas.Proofs.Table
import CodeAtlas.Value.Toml.Document

/-!
# Documents name no field twice

Whatever a settings document is made of, none of its tables, at any depth, holds a key
twice. Every table starts empty and grows only by storing a value under a key, in the
key's place if there is one; so it is enough that each part of the reader, given tables
with distinct keys, leaves such tables behind.
-/

namespace CodeAtlas.Value

/-- No record in a value names a field twice. -/
inductive Distinct : Value → Prop
  | null : Distinct .null
  | boolean (b : Bool) : Distinct (.boolean b)
  | integer (n : Int) : Distinct (.integer n)
  | real (x : Binary64) : Distinct (.real x)
  | text (s : String) : Distinct (.text s)
  | list {items : List Value} (h : ∀ v ∈ items, Distinct v) : Distinct (.list items)
  | record {fields : List (String × Value)} (hkeys : (fields.map Prod.fst).Nodup)
    (h : ∀ p ∈ fields, Distinct p.2) : Distinct (.record fields)

theorem mem_putPair {key : String} {v : Value} {fields : List (String × Value)}
    {p : String × Value} (h : p ∈ Table.putPair key v fields) : p.2 = v ∨ p ∈ fields := by
  induction fields with
  | nil =>
    rw [Table.putPair, List.mem_singleton] at h
    exact .inl (by rw [h])
  | cons q rest ih =>
    rw [Table.putPair] at h
    split at h
    · rcases List.mem_cons.mp h with rfl | h
      · exact .inl rfl
      · exact .inr (List.mem_cons_of_mem q h)
    · rcases List.mem_cons.mp h with rfl | h
      · exact .inr List.mem_cons_self
      · exact (ih h).imp_right (List.mem_cons_of_mem q)

namespace Distinct

theorem empty : Distinct (.record []) := .record List.nodup_nil (by simp)

theorem field {fields : List (String × Value)} (h : Distinct (.record fields)) {key : String}
    {v : Value} (hv : fields.lookup key = some v) : Distinct v := by
  obtain ⟨before, after, hsplit, -⟩ := List.lookup_eq_some_iff.mp hv
  cases h with
  | record _ hfields => exact hfields (key, v) (by simp [hsplit])

theorem fieldOr {fields : List (String × Value)} (h : Distinct (.record fields)) (key : String)
    {default : Value} (hdefault : Distinct default) :
    Distinct ((fields.lookup key).getD default) := by
  cases hv : fields.lookup key with
  | none => exact hdefault
  | some v => exact h.field hv

theorem putPair {fields : List (String × Value)} (h : Distinct (.record fields)) (key : String)
    {v : Value} (hv : Distinct v) : Distinct (.record (Table.putPair key v fields)) := by
  cases h with
  | record hkeys hfields =>
    refine .record (Table.nodup_keys_putPair key v hkeys) ?_
    intro p hp
    rcases mem_putPair hp with rfl | hp
    · exact hv
    · exact hfields p hp

theorem item {items : List Value} (h : Distinct (.list items)) {v : Value} (hv : v ∈ items) :
    Distinct v := by
  cases h with
  | list hitems => exact hitems v hv

theorem last {items : List Value} (h : Distinct (.list items)) {v : Value}
    (hv : items.getLast? = some v) : Distinct v :=
  h.item (List.mem_of_getLast? hv)

theorem concat {items : List Value} (h : Distinct (.list items)) {v : Value} (hv : Distinct v) :
    Distinct (.list (items ++ [v])) := by
  refine .list ?_
  intro w hw
  rcases List.mem_append.mp hw with hw | hw
  · exact h.item hw
  · exact List.mem_singleton.mp hw ▸ hv

/-- The last item of a list may be replaced. -/
theorem replaceLast {items : List Value} (h : Distinct (.list items)) {v : Value}
    (hv : Distinct v) : Distinct (.list (items.dropLast ++ [v])) :=
  (list fun _ hw => h.item (List.dropLast_subset items hw)).concat hv

end Distinct

namespace Toml

theorem distinct_updateAt {f : List (String × Value) → List (String × Value)}
    (hf : ∀ fields, Distinct (.record fields) → Distinct (.record (f fields)))
    (path : List String) {v : Value} (hv : Distinct v) : Distinct (updateAt f path v) := by
  induction path, v using updateAt.induct with
  | case1 fields => exact hf fields hv
  | case2 key path fields ih => exact hv.putPair key (ih (hv.fieldOr key .empty))
  | case3 path v hempty hcons => rwa [updateAt]; all_goals assumption

/-- With so many levels, the readers give distinct values, and keep tables distinct. -/
structure Keeps (levels : Nat) : Prop where
  literal : ∀ {cs kind v}, literal levels cs = .ok (kind, v) → Distinct v
  array : ∀ {cs items}, array levels cs = .ok items → Distinct (.list items)
  inlineTable : ∀ {cs table v}, Distinct table → inlineTable levels cs table = .ok v → Distinct v
  assign : ∀ {line table v pending}, Distinct table →
    assign levels line table = .ok (v, pending) → Distinct v

theorem distinct_number? {cs : List Char} {v : Value} (h : number? cs = some v) : Distinct v := by
  unfold number? at h
  dsimp only at h
  split at h
  · split at h
    · cases h
    · obtain ⟨x, -, rfl⟩ := Option.map_eq_some_iff.mp h
      exact .real x
  · split at h
    · obtain ⟨x, -, rfl⟩ := Option.map_eq_some_iff.mp h
      exact .real x
    · obtain ⟨n, -, rfl⟩ := Option.map_eq_some_iff.mp h
      exact .integer _

section Step

variable {levels : Nat} (h : Keeps levels)

include h

theorem distinct_literal_succ {cs : List Char} {kind : Kind} {v : Value}
    (hv : literal (levels + 1) cs = .ok (kind, v)) : Distinct v := by
  unfold literal at hv
  split at hv
  · cases hv
  split at hv
  · cases hv
    exact .boolean true
  split at hv
  · cases hv
    exact .boolean false
  split at hv
  · obtain ⟨s, -, heq⟩ := map_eq_ok_iff.mp hv
    cases heq
    exact .text _
  split at hv
  · obtain ⟨items, hitems, heq⟩ := map_eq_ok_iff.mp hv
    cases heq
    exact h.array hitems
  split at hv
  · obtain ⟨w, hw, heq⟩ := map_eq_ok_iff.mp hv
    cases heq
    exact h.inlineTable .empty hw
  split at hv
  · split at hv
    · cases hv
      exact .real _
    · cases hv
  split at hv
  · cases hv
    exact .real _
  split at hv
  · cases hv
    exact .integer _
  · next hnumber =>
    cases hv
    exact distinct_number? hnumber
  · cases hv

theorem distinct_array_succ {cs : List Char} {items : List Value}
    (hitems : array (levels + 1) cs = .ok items) : Distinct (.list items) := by
  unfold array at hitems
  split at hitems
  · cases hitems
  obtain ⟨acc, hacc, rfl⟩ := map_eq_ok_iff.mp hitems
  have hkept : Distinct (.list acc.2) := by
    refine foldlM_keeps (P := fun acc : Option Kind × List Value => Distinct (.list acc.2)) ?_
      (.list (by simp)) hacc
    intro acc part acc' hold hstep
    have hcons : ∀ {kind v}, literal levels (Text.trim part) = .ok (kind, v) →
        Distinct (.list (v :: acc.2)) := by
      intro kind v hv
      exact .list (List.forall_mem_cons.mpr ⟨h.literal hv, fun w hw => hold.item hw⟩)
    split at hstep
    · cases hstep
      exact hold
    split at hstep
    · cases hstep
    · next hv _ =>
      cases hstep
      exact hcons hv
    · next hv _ =>
      split at hstep
      · cases hstep
        exact hcons hv
      · cases hstep
  refine .list ?_
  intro v hv
  exact hkept.item (List.mem_reverse.mp hv)

theorem distinct_inlineTable_succ {cs : List Char} {table v : Value} (htable : Distinct table)
    (hv : inlineTable (levels + 1) cs table = .ok v) : Distinct v := by
  unfold inlineTable at hv
  split at hv
  · cases hv
  obtain ⟨acc, hacc, rfl⟩ := map_eq_ok_iff.mp hv
  refine foldlM_keeps (P := fun acc : Value × Bool => Distinct acc.1) ?_ htable hacc
  intro acc part acc' hold hstep
  split at hstep
  · cases hstep
    exact hold
  split at hstep
  · cases hstep
  · next hassign =>
    cases hstep
    exact h.assign hold hassign

theorem distinct_assign_succ {line : List Char} {table v : Value} {pending : Option Pending}
    (htable : Distinct table) (hv : assign (levels + 1) line table = .ok (v, pending)) :
    Distinct v := by
  unfold assign at hv
  split at hv
  · cases hv
  split at hv
  · cases hv
  split at hv
  · cases hv
  split at hv
  · cases hv
  · split at hv
    · cases hv
    split at hv
    · cases hv
    cases hv
    exact distinct_updateAt (fun _ hfields => hfields) _ htable
  · split at hv
    · cases hv
    next hliteral =>
    split at hv
    · cases hv
      exact distinct_updateAt (fun _ hfields => hfields.putPair _ (h.literal hliteral)) _ htable
    · cases hv

end Step

/-- One level after another, from the innermost. -/
theorem keeps (levels : Nat) : Keeps levels := by
  induction levels with
  | zero =>
    constructor
    · intro cs kind v hv
      rw [literal] at hv
      cases hv
    · intro cs items hitems
      rw [array] at hitems
      cases hitems
    · intro cs table v _ hv
      rw [inlineTable] at hv
      cases hv
    · intro line table v pending _ hv
      rw [assign] at hv
      cases hv
  | succ levels ih =>
    exact ⟨distinct_literal_succ ih, distinct_array_succ ih, distinct_inlineTable_succ ih,
      distinct_assign_succ ih⟩

theorem distinct_updateFrom {f : Value → Except Fault Value}
    (hf : ∀ v w, Distinct v → f v = .ok w → Distinct w) (steps : List Step) {v w : Value}
    (hv : Distinct v) (hw : updateFrom f steps v = .ok w) : Distinct w := by
  induction steps generalizing v w with
  | nil => exact hf v w hv hw
  | cons step steps ih =>
    unfold updateFrom at hw
    split at hw
    next => cases ‹_ = []›
    next key _ fields heq =>
      cases heq
      obtain ⟨inside, hinside, rfl⟩ := map_eq_ok_iff.mp hw
      exact hv.putPair key (ih (hv.fieldOr key .empty) hinside)
    next _ items heq =>
      cases heq
      obtain ⟨changed, hchanged, rfl⟩ := map_eq_ok_iff.mp hw
      unfold updateLast at hchanged
      split at hchanged
      · cases hchanged
      next last hlast =>
      obtain ⟨item, hitem, rfl⟩ := map_eq_ok_iff.mp hchanged
      exact hv.replaceLast (ih (hv.last hlast) hitem)
    next => cases hw

theorem distinct_valueFrom (steps : List Step) {v : Value} (hv : Distinct v) :
    Distinct (Reading.valueFrom steps v) := by
  induction steps, v using Reading.valueFrom.induct with
  | case1 key steps fields ih => exact ih (hv.fieldOr key .null)
  | case2 steps items ih =>
    refine ih ?_
    cases hlast : items.getLast? with
    | none => exact .null
    | some item => exact hv.last hlast
  | case3 steps v hfield hlast => rwa [Reading.valueFrom]; all_goals assumption

theorem distinct_fresh (addsToList : Bool) (rest : List String) :
    Distinct (fresh addsToList rest) := by
  unfold fresh
  split
  · exact .list (by simp [Distinct.empty])
  · exact .empty

theorem distinct_revisit {addsToList : Bool} {passed passed' : List String} {name : String}
    {rest : List String} {v w : Value} (hv : Distinct v)
    (hw : revisit addsToList passed name rest v = .ok (w, passed')) : Distinct w := by
  unfold revisit at hw
  split at hw
  · cases hw
    exact hv
  split at hw
  · split at hw
    · cases hw
    · cases hw
      exact hv
  split at hw
  · split at hw
    · cases hw
      exact hv.concat .empty
    · cases hw
  · cases hw

theorem distinct_enter {addsToList : Bool} {next : Value → Except Fault Place} {v : Value}
    {p : Place} (hnext : ∀ v p, Distinct v → next v = .ok p → Distinct p.value) (hv : Distinct v)
    (hp : enter addsToList next v = .ok p) : Distinct p.value := by
  unfold enter at hp
  split at hp
  · split at hp
    · cases hp
    next item hitem =>
    obtain ⟨q, hq, rfl⟩ := map_eq_ok_iff.mp hp
    exact hv.replaceLast (hnext item q (hv.last hitem) hq)
  · split at hp
    · cases hp
    · exact hnext _ p hv hp
  · exact hnext _ p hv hp
  · exact hnext _ p hv hp
  · cases hp

theorem distinct_follow {addsToList : Bool} {passed names : List String} {v : Value} {p : Place}
    (hv : Distinct v) (hp : follow addsToList passed names v = .ok p) : Distinct p.value := by
  induction names generalizing passed v p with
  | nil =>
    rw [follow] at hp
    cases hp
    exact hv
  | cons name rest ih =>
    have hnext : ∀ passed v p, Distinct v → follow addsToList passed rest v = .ok p →
        Distinct p.value := fun passed v p hv hp => ih hv hp
    unfold follow at hp
    split at hp
    · cases hp
    split at hp
    next fields =>
      dsimp only at hp
      split at hp
      · cases hp
      next inside passed' hfound =>
      obtain ⟨q, hq, rfl⟩ := map_eq_ok_iff.mp hp
      have hinside : Distinct inside := by
        split at hfound
        next found hlookup => exact distinct_revisit (hv.field hlookup) hfound
        next =>
          cases hfound
          exact distinct_fresh addsToList rest
      exact hv.putPair name (distinct_enter (hnext passed') hinside hq)
    next items =>
      split at hp
      · cases hp
      next fields hlast =>
        obtain ⟨q, hq, rfl⟩ := map_eq_ok_iff.mp hp
        have hfields : Distinct (.record fields) := hv.last hlast
        have hinside := hfields.fieldOr name (distinct_fresh addsToList rest)
        exact hv.replaceLast
          (hfields.putPair name (distinct_enter (hnext passed) hinside hq))
      · cases hp
    next => split at hp <;> cases hp
    next => cases hp

namespace Reading

theorem distinct_update {r r' : Reading} {f : Value → Except Fault Value}
    (hf : ∀ v w, Distinct v → f v = .ok w → Distinct w) (hr : Distinct r.place.value)
    (h : r.update f = .ok r') : Distinct r'.place.value := by
  obtain ⟨v, hv, rfl⟩ := map_eq_ok_iff.mp h
  exact distinct_updateFrom hf r.place.steps hr hv

theorem distinct_store {r r' : Reading} {name : String} {v : Value} (hv : Distinct v)
    (hr : Distinct r.place.value) (h : r.store name v = .ok r') : Distinct r'.place.value := by
  refine distinct_update ?_ hr h
  intro table w htable hw
  split at hw
  · cases hw
    exact htable.putPair name hv
  · cases hw

theorem distinct_continueText {r r' : Reading} {p : Pending} {line : List Char}
    (hr : Distinct r.place.value) (h : r.continueText p line = .ok r') :
    Distinct r'.place.value := by
  unfold continueText at h
  dsimp only at h
  split at h
  · cases h
  · cases h
    exact hr
  · split at h
    · cases h
    next hliteral =>
      exact distinct_store (r := { r with pending := none })
        ((keeps nestingLimit).literal hliteral) hr h

theorem distinct_openTable {r r' : Reading} {line : List Char} (hr : Distinct r.place.value)
    (h : r.openTable line = .ok r') : Distinct r'.place.value := by
  unfold openTable at h
  obtain ⟨header, -, h⟩ := bind_eq_ok_iff.mp h
  obtain ⟨place, hplace, h⟩ := bind_eq_ok_iff.mp h
  cases h
  exact distinct_follow hr hplace

theorem distinct_takeAssignment {r r' : Reading} {line : List Char} (hr : Distinct r.place.value)
    (h : r.takeAssignment line = .ok r') : Distinct r'.place.value := by
  unfold takeAssignment at h
  split at h
  · cases h
  next table pending hassign =>
  have htable : Distinct table :=
    (keeps nestingLimit).assign (distinct_valueFrom r.place.steps hr) hassign
  refine distinct_update (r := { r with pending }) ?_ hr h
  intro v w _ hw
  cases hw
  exact htable

/-- No line makes a document name a field twice. -/
theorem distinct_step {r r' : Reading} {line : List Char} (hr : Distinct r.place.value)
    (h : r.step line = .ok r') : Distinct r'.place.value := by
  unfold step at h
  split at h
  · extract_lets line' at h
    split at h
    · cases h
      exact hr
    · exact distinct_continueText hr h
  · dsimp only at h
    split at h
    · cases h
      exact hr
    split at h
    · exact distinct_openTable hr h
    split at h
    · split at h
      · exact distinct_update (fun v w hv => (keeps nestingLimit).inlineTable hv) hr h
      · cases h
    split at h
    · exact distinct_takeAssignment hr h
    · cases h
      exact hr

end Reading

theorem distinct_parse {text : List Char} {v : Value} (h : parse text = .ok v) : Distinct v := by
  unfold parse at h
  obtain ⟨lines, -, h⟩ := bind_eq_ok_iff.mp h
  obtain ⟨r, hr, h⟩ := bind_eq_ok_iff.mp h
  cases h
  exact foldlM_keeps (P := fun r : Reading => Distinct r.place.value)
    (fun _ _ _ => Reading.distinct_step) .empty hr

end Toml

end CodeAtlas.Value
