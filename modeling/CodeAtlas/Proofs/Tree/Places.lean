import CodeAtlas.Tree.Walk
import Mathlib.Data.List.Basic

/-!
# The places that the pass comes to

A place is a node with its surroundings, so a tree in which two nodes look alike
still has two places for them. The places that the pass comes to are listed by a
recursion that keeps no notes: the node, and then, unless the node is closed, the
places below its named children from left to right. They are exactly those that
some way down from the top leads to, and their addresses ascend, so none is listed
twice.
-/

namespace CodeAtlas.Tree

/-- What holds of a node if it holds of its children holds of every node. -/
theorem Node.induction {P : Node → Prop}
    (step : ∀ n : Node, (∀ c ∈ n.children, P c) → P n) (n : Node) : P n :=
  step n fun c _hc => Node.induction step c
termination_by n
decreasing_by
  obtain ⟨_, _, _, _, _, _, children⟩ := n
  have hlt : sizeOf c < sizeOf children := List.sizeOf_lt_of_mem _hc
  simp only [Node.mk.sizeOf_spec]
  omega

namespace Place

/-- The place of a child. Those in front of it are given, the nearest first. -/
def child (p : Place) (before : List Node) (n : Node) : Place := ⟨n, ⟨p.node, before⟩ :: p.above⟩

/-- The positions of the nodes on the way from the top, each among its siblings. -/
def address (p : Place) : List Nat := (p.above.map fun f => f.before.length).reverse

theorem mem_children {p : Place} {before after : List Node} {n : Node}
    (h : p.node.children = before.reverse ++ n :: after) : n ∈ p.node.children := by
  simp [h]

theorem address_child (p : Place) (before : List Node) (n : Node) :
    (p.child before n).address = p.address ++ [before.length] := by
  simp [address, child]

end Place

/-- A declaration of a type, an import statement and a class without a name are closed: the pass
does not go on below them. -/
def isClosed (s : Source) (p : Place) : Bool :=
  match Category.ofType p.node.type with
  | .interface | .typeAlias | .importStatement => true
  | .classDecl => (className? s p).isNone
  | _ => false

/-- A way leads down from a place through named children, and through no closed node. -/
inductive Reached (s : Source) (top : Place) : Place → Prop
  | refl : Reached s top top
  | child {p : Place} {before after : List Node} {n : Node} (h : Reached s top p)
    (hopen : isClosed s p = false) (hsplit : p.node.children = before.reverse ++ n :: after)
    (hnamed : n.named = true) : Reached s top (p.child before n)

theorem Reached.trans {s : Source} {top p q : Place} (h : Reached s top p)
    (h' : Reached s p q) : Reached s top q := by
  induction h' with
  | refl => exact h
  | child _ hopen hsplit hnamed ih => exact ih.child hopen hsplit hnamed

theorem Reached.exists_address {s : Source} {top p : Place} (h : Reached s top p) :
    ∃ rest, p.address = top.address ++ rest := by
  induction h with
  | refl => exact ⟨[], (List.append_nil _).symm⟩
  | child _ _ _ _ ih =>
    obtain ⟨rest, hrest⟩ := ih
    rw [Place.address_child, hrest, List.append_assoc]
    exact ⟨_, rfl⟩

mutual

/-- The places that the pass comes to, from a node on. -/
def places (s : Source) (above : List Frame) : Node → List Place
  | n@⟨_, _, _, _, _, _, children⟩ =>
    ⟨n, above⟩ :: if isClosed s ⟨n, above⟩ then [] else placesBelow s n above [] children

/-- The places from some children of a node on. `before` holds those already passed. -/
def placesBelow (s : Source) (parent : Node) (above : List Frame) (before : List Node) :
    List Node → List Place
  | [] => []
  | n :: ns =>
    (if n.named then places s (⟨parent, before⟩ :: above) n else []) ++
      placesBelow s parent above (n :: before) ns

end

theorem places_eq (s : Source) (p : Place) :
    places s p.above p.node =
      p :: if isClosed s p then [] else placesBelow s p.node p.above [] p.node.children := by
  obtain ⟨⟨_, _, _, _, _, _, children⟩, above⟩ := p
  rw [places]

theorem self_mem_places (s : Source) (p : Place) : p ∈ places s p.above p.node := by
  rw [places_eq]
  exact List.mem_cons_self

theorem mem_placesBelow_iff {s : Source} {parent : Node} {above : List Frame}
    {before ns : List Node} {q : Place} :
    q ∈ placesBelow s parent above before ns ↔
      ∃ ns₁ n ns₂, ns = ns₁ ++ n :: ns₂ ∧ n.named = true ∧
        q ∈ places s (⟨parent, ns₁.reverse ++ before⟩ :: above) n := by
  induction ns generalizing before with
  | nil => simp [placesBelow]
  | cons m ns ih =>
    rw [placesBelow, List.mem_append, ih]
    constructor
    · rintro (hq | ⟨ns₁, n, ns₂, rfl, hnamed, hq⟩)
      · split at hq
        next hnamed => exact ⟨[], m, ns, rfl, hnamed, hq⟩
        next => cases hq
      · refine ⟨m :: ns₁, n, ns₂, rfl, hnamed, ?_⟩
        rwa [List.reverse_cons, List.append_assoc, List.singleton_append]
    · rintro ⟨ns₁, n, ns₂, hsplit, hnamed, hq⟩
      rcases List.append_eq_cons_iff.mp hsplit.symm with ⟨rfl, hhead⟩ | ⟨ns₁', rfl, rfl⟩
      · obtain ⟨rfl, rfl⟩ := List.cons.inj hhead
        left
        rwa [if_pos hnamed]
      · refine .inr ⟨ns₁', n, ns₂, rfl, hnamed, ?_⟩
        rwa [List.reverse_cons, List.append_assoc, List.singleton_append] at hq

/-- A place is listed from a node on if it is the node's, or is listed from a named child on. -/
theorem mem_places_iff {s : Source} {p q : Place} :
    q ∈ places s p.above p.node ↔
      q = p ∨ isClosed s p = false ∧ ∃ before n after,
        p.node.children = before.reverse ++ n :: after ∧ n.named = true ∧
        q ∈ places s (p.child before n).above n := by
  rw [places_eq, List.mem_cons]
  refine or_congr_right ?_
  cases hclosed : isClosed s p with
  | true => simp
  | false =>
    rw [if_neg Bool.false_ne_true, mem_placesBelow_iff]
    constructor
    · rintro ⟨ns₁, n, ns₂, hsplit, hnamed, hq⟩
      rw [List.append_nil] at hq
      exact ⟨rfl, ns₁.reverse, n, ns₂, by rwa [List.reverse_reverse], hnamed, hq⟩
    · rintro ⟨-, before, n, after, hsplit, hnamed, hq⟩
      refine ⟨before.reverse, n, after, hsplit, hnamed, ?_⟩
      rwa [List.reverse_reverse, List.append_nil]

theorem reached_of_mem_places {s : Source} {p q : Place} (hq : q ∈ places s p.above p.node) :
    Reached s p q := by
  obtain ⟨n, above⟩ := p
  induction n using Node.induction generalizing above with
  | step n ih =>
    rcases mem_places_iff.mp hq with rfl | ⟨hopen, before, c, after, hsplit, hnamed, hq⟩
    · exact .refl
    · exact (Reached.refl.child hopen hsplit hnamed).trans (ih c (Place.mem_children hsplit) _ hq)

/-- With a place its named children are listed, unless it is closed. -/
theorem child_mem_places {s : Source} {p q : Place} {before after : List Node} {c : Node}
    (hq : q ∈ places s p.above p.node) (hopen : isClosed s q = false)
    (hsplit : q.node.children = before.reverse ++ c :: after) (hnamed : c.named = true) :
    q.child before c ∈ places s p.above p.node := by
  obtain ⟨n, above⟩ := p
  induction n using Node.induction generalizing above with
  | step n ih =>
    rw [mem_places_iff] at hq ⊢
    rcases hq with rfl | ⟨hopen', before', c', after', hsplit', hnamed', hq⟩
    · exact .inr ⟨hopen, before, c, after, hsplit, hnamed, self_mem_places s (Place.child _ _ _)⟩
    · exact .inr ⟨hopen', before', c', after', hsplit', hnamed',
        ih c' (Place.mem_children hsplit') _ hq⟩

theorem mem_places_iff_reached {s : Source} {p q : Place} :
    q ∈ places s p.above p.node ↔ Reached s p q := by
  refine ⟨reached_of_mem_places, ?_⟩
  intro h
  induction h with
  | refl => exact self_mem_places s p
  | child _ hopen hsplit hnamed ih => exact child_mem_places ih hopen hsplit hnamed

theorem exists_address_of_mem_placesBelow {s : Source} {p q : Place} {before ns : List Node}
    (hq : q ∈ placesBelow s p.node p.above before ns) :
    ∃ i rest, before.length ≤ i ∧ q.address = p.address ++ i :: rest := by
  obtain ⟨ns₁, n, ns₂, -, -, hq⟩ := mem_placesBelow_iff.mp hq
  obtain ⟨rest, hrest⟩ :=
    (reached_of_mem_places (p := p.child (ns₁.reverse ++ before) n) hq).exists_address
  refine ⟨(ns₁.reverse ++ before).length, rest, by simp, ?_⟩
  rw [hrest, Place.address_child, List.append_assoc]
  rfl

/-- From the top and the left, addresses ascend. -/
theorem pairwise_address_places (s : Source) (p : Place) :
    (places s p.above p.node).Pairwise fun q r => q.address < r.address := by
  obtain ⟨n, above⟩ := p
  induction n using Node.induction generalizing above with
  | step n ih =>
    have hbelow : ∀ before ns, (∀ c ∈ ns, c ∈ n.children) →
        (placesBelow s n above before ns).Pairwise fun q r => q.address < r.address := by
      intro before ns hns
      induction ns generalizing before with
      | nil => simp [placesBelow]
      | cons c ns ihns =>
        rw [placesBelow, List.pairwise_append]
        refine ⟨?_, ihns (c :: before) fun d hd => hns d (List.mem_cons_of_mem _ hd), ?_⟩
        · split
          · exact ih c (hns c List.mem_cons_self) _
          · exact .nil
        · -- the addresses of `q` and `r` part where the child is counted
          intro q hq r hr
          split at hq
          next =>
            obtain ⟨rest, hrest⟩ :=
              (reached_of_mem_places (p := Place.child ⟨n, above⟩ before c) hq).exists_address
            obtain ⟨i, rest', hi, hrest'⟩ :=
              exists_address_of_mem_placesBelow (p := ⟨n, above⟩) hr
            rw [hrest, hrest', Place.address_child, List.append_assoc]
            exact List.append_left_lt (.rel hi)
          next => cases hq
    rw [places_eq s ⟨n, above⟩, List.pairwise_cons]
    constructor
    · intro q hq
      split at hq
      next => cases hq
      next =>
        obtain ⟨i, rest, -, hrest⟩ := exists_address_of_mem_placesBelow hq
        rw [hrest]
        nth_rewrite 1 [← List.append_nil (Place.address _)]
        exact List.append_left_lt .nil
    · split
      · exact .nil
      · exact hbelow [] _ fun c hc => hc

end CodeAtlas.Tree
