import CodeAtlas.Proofs.Ids
import CodeAtlas.Proofs.Tree.Declarations
import Mathlib.Data.List.Nodup

/-!
# Callers enclose their call sites

In a tree whose nodes contain their children, the function that a call site is
attributed to has the call site between its first and its last line. The index,
however, knows the function by the symbol that is kept under its id. A declaration
that comes first may stand in its place: it has the same name and first line, but
it can be of another kind, and it can end before the function does. Where no
function is hidden in this way, the kept symbol is that of a function or method
and encloses the call site too.
-/

namespace CodeAtlas

namespace Tree

namespace Node

/-- Both ends of a node's range lie in the range of another one. -/
def contains (n c : Node) : Bool :=
  decide (n.start ≤ c.start) && decide (c.start ≤ n.stop) &&
    (decide (n.start ≤ c.stop) && decide (c.stop ≤ n.stop))

mutual

/-- Every node of the tree contains its children. -/
def isNested : Node → Bool
  | n@⟨_, _, _, _, _, _, children⟩ => children.all n.contains && allNested children

def allNested : List Node → Bool
  | [] => true
  | n :: ns => isNested n && allNested ns

end

theorem contains_iff {n c : Node} :
    n.contains c = true ↔
      (n.start ≤ c.start ∧ c.start ≤ n.stop) ∧ n.start ≤ c.stop ∧ c.stop ≤ n.stop := by
  simp [contains]

theorem contains_trans {n c d : Node} (hc : n.contains c = true) (hd : c.contains d = true) :
    n.contains d = true := by
  rw [contains_iff] at *
  omega

theorem allNested_iff {ns : List Node} :
    allNested ns = true ↔ ∀ n ∈ ns, n.isNested = true := by
  induction ns with
  | nil => simp [allNested]
  | cons n ns ih => simp [allNested, ih]

theorem isNested_iff {n : Node} :
    n.isNested = true ↔ ∀ c ∈ n.children, n.contains c = true ∧ c.isNested = true := by
  obtain ⟨_, _, _, _, _, _, children⟩ := n
  rw [isNested, Bool.and_eq_true, List.all_eq_true, allNested_iff]
  exact forall₂_and.symm

end Node

/-- A place in a nested tree is nested, and all those around contain it. -/
theorem Reached.contains {s : Source} {root : Node} {p : Place} (hroot : root.isNested = true)
    (h : Reached s (.root root) p) :
    p.node.isNested = true ∧ ∀ q ∈ Place.outwards p.above, q.node.contains p.node = true := by
  induction h with
  | refl => exact ⟨hroot, by simp [Place.root, Place.outwards]⟩
  | @child p before after n _ _ hsplit _ ih =>
    obtain ⟨hcontains, hnested⟩ := Node.isNested_iff.mp ih.1 n (Place.mem_children hsplit)
    refine ⟨hnested, ?_⟩
    intro q hq
    rw [Place.child, Place.outwards, List.mem_cons] at hq
    rcases hq with rfl | hq
    · exact hcontains
    · exact Node.contains_trans (ih.2 q hq) hcontains

theorem Source.row_mono (s : Source) {i j : Nat} (h : i ≤ j) : s.row i ≤ s.row j :=
  List.Sublist.count_le _ (List.take_sublist_take_left h)

theorem Source.line_le_of_contains (s : Source) {n c : Node} (h : n.contains c = true) :
    s.line n ≤ s.line c ∧ s.line c ≤ s.endLine n := by
  obtain ⟨⟨hstart, hstop⟩, -⟩ := Node.contains_iff.mp h
  have hfirst := s.row_mono hstart
  have hlast := s.row_mono hstop
  simp only [Source.line, Source.endLine]
  omega

/-- The line of a call site is that of a node which all around the call contain. -/
theorem exists_node_of_mem_referencesAt {s : Source} {root : Node} {p : Place} {r : Reference}
    (hroot : root.isNested = true) (hp : p ∈ places s [] root) (hr : r ∈ referencesAt s p) :
    ∃ n, r.line = s.line n ∧ ∀ q ∈ Place.outwards p.above, q.node.contains n = true := by
  obtain ⟨hnested, haround⟩ := Reached.contains hroot (mem_places_iff_reached.mp hp)
  obtain ⟨-, ⟨-, hline⟩ | ⟨-, arguments, arg, harguments, harg, hline⟩⟩ := referencesAt_cases hr
  · exact ⟨p.node, hline, haround⟩
  · obtain ⟨hcontains, hnested⟩ := Node.isNested_iff.mp hnested arguments harguments
    obtain ⟨hcontains', -⟩ := Node.isNested_iff.mp hnested arg harg
    refine ⟨arg, hline, ?_⟩
    intro q hq
    exact Node.contains_trans (Node.contains_trans (haround q hq) hcontains) hcontains'

/-- A declaration at `p` has the id of the function at `q`, but is no function or method, or ends
on an earlier line. -/
def hides (s : Source) (p q : Place) : Bool :=
  (symbolAt s p).any fun d =>
    functionId? s q == some d.id && (!d.kind.isCallable || decide (d.endLine < s.endLine q.node))

/-- Some function with the id is hidden by a declaration that the pass comes to before it. -/
def Hidden (s : Source) (root : Node) (id : String) : Prop :=
  ∃ p ∈ places s [] root, ∃ q ∈ places s [] root,
    p.address < q.address ∧ functionId? s q = some id ∧ hides s p q = true

instance (s : Source) (root : Node) (id : String) : Decidable (Hidden s root id) :=
  inferInstanceAs (Decidable (∃ p ∈ places s [] root, ∃ q ∈ places s [] root,
    p.address < q.address ∧ functionId? s q = some id ∧ hides s p q = true))

/-- Declarations with one id start on one line. -/
theorem line_eq_of_symbolAt {s : Source} {p q : Place} {d e : Symbol} (hd : symbolAt s p = some d)
    (he : symbolAt s q = some e) (hid : d.id = e.id) : d.line = e.line := by
  obtain ⟨name, kind, signature, rfl, -⟩ := exists_declaration_of_symbolAt hd
  obtain ⟨name', kind', signature', rfl, -⟩ := exists_declaration_of_symbolAt he
  exact (eq_of_symbolId_eq hid).2

/-- What is kept in place of a function that is not hidden is a function or method, and ends no
earlier. -/
theorem isCallable_of_not_hidden {s : Source} {root : Node} {q : Place} {d : Symbol}
    (hd : d ∈ (findings s root).symbols) (hq : q ∈ places s [] root)
    (hid : functionId? s q = some d.id) (hclear : ¬Hidden s root d.id) :
    d.kind.isCallable = true ∧ s.endLine q.node ≤ d.endLine := by
  obtain ⟨e, he, heid, hcallable⟩ := exists_symbolAt_of_functionId? hid
  obtain ⟨earlier, p, later, hsplit, hp, hfirst⟩ := exists_place_of_mem_symbols hd
  have hascend := pairwise_address_places s (.root root)
  have hsplit' : places s (Place.root root).above (Place.root root).node =
      earlier ++ p :: later := hsplit
  rw [hsplit'] at hascend
  rw [hsplit, List.mem_append, List.mem_cons] at hq
  rcases hq with hq | rfl | hq
  · exact absurd heid (hfirst q hq e he)
  · obtain ⟨name, kind, signature, rfl, -⟩ := exists_declaration_of_symbolAt he
    obtain rfl := Option.some.inj (hp.symm.trans he)
    exact ⟨hcallable, Int.le_refl _⟩
  · have hlt : p.address < q.address :=
      (List.pairwise_cons.mp (List.pairwise_append.mp hascend).2.1).1 q hq
    have hnot : hides s p q = false := by
      by_contra hhides
      refine hclear ⟨p, ?_, q, ?_, hlt, hid, by simpa using hhides⟩ <;> simp [hsplit, hq]
    simpa [hides, hp, hid] using hnot

/-- In a nested tree, the function that a call site is attributed to has the call site between its
lines. The one symbol that is kept with the caller's id starts no later than the call site, and
unless a function with this id is hidden, it is a function or method that ends no earlier. -/
theorem callers_enclose_unless_hidden (s : Source) (root : Node) (hroot : root.isNested = true)
    {r : Reference} (hr : r ∈ (findings s root).references) {id : String}
    (hid : r.caller = some id) :
    (∃ q ∈ places s [] root, functionId? s q = some id ∧
      s.line q.node ≤ r.line ∧ r.line ≤ s.endLine q.node) ∧
    ∃ d ∈ (findings s root).symbols, d.id = id ∧
      (∀ e ∈ (findings s root).symbols, e.id = id → e = d) ∧ d.line ≤ r.line ∧
      (¬Hidden s root id → d.kind.isCallable = true ∧ r.line ≤ d.endLine) := by
  obtain ⟨p, hp, hrp⟩ := mem_references_findings_iff.mp hr
  obtain ⟨q, hq, hfunction⟩ := exists_function_of_caller hrp hid
  obtain ⟨n, hline, haround⟩ := exists_node_of_mem_referencesAt hroot hp hrp
  have hplace : q ∈ places s [] root := mem_places_of_mem_outwards hp hq
  have hlines : s.line q.node ≤ r.line ∧ r.line ≤ s.endLine q.node := by
    rw [hline]
    exact s.line_le_of_contains (haround q hq)
  obtain ⟨e, he, heid, -⟩ := exists_symbolAt_of_functionId? hfunction
  obtain ⟨d, hd, hdid⟩ :=
    exists_mem_symbols_of_mem_declared (mem_declared_iff.mpr ⟨q, hplace, he⟩)
  have hdid : d.id = id := hdid.trans heid
  refine ⟨⟨q, hplace, hfunction, hlines⟩, d, hd, hdid, ?_, ?_, ?_⟩
  · intro e he heid
    exact List.inj_on_of_nodup_map (nodup_ids_findings s root) he hd (heid.trans hdid.symm)
  · obtain ⟨earlier, p', later, -, hp', -⟩ := exists_place_of_mem_symbols hd
    have hsame : d.line = e.line := line_eq_of_symbolAt hp' he (hdid.trans heid.symm)
    obtain ⟨name, kind, signature, rfl, -⟩ := exists_declaration_of_symbolAt he
    rw [hsame]
    exact hlines.1
  · intro hclear
    subst hdid
    obtain ⟨hcallable, hend⟩ := isCallable_of_not_hidden hd hplace hfunction hclear
    exact ⟨hcallable, Int.le_trans hlines.2 hend⟩

/-- A fixed token of the grammar. -/
def token (type : String) (start stop : Nat) : Node := ⟨type, start, stop, false, false, [], []⟩

/-- A call of a name of one character without arguments. -/
def plainCall (start : Nat) : Node :=
  spanning "call_expression" start (start + 3) []
    [leaf "identifier" start (start + 1) "function",
      spanning "arguments" (start + 1) (start + 3) ["arguments"]
        [token "(" (start + 1) (start + 2), token ")" (start + 2) (start + 3)]]

/-- An accessor by its offsets, with one call in its body. -/
def accessor (start name body stop : Nat) : Node :=
  spanning "method_definition" start stop []
    [leaf "property_identifier" name (name + 1) "name",
      spanning "statement_block" body stop ["body"] [plainCall (body + 2)]]

def accessorClass : Node :=
  spanning "class_declaration" 0 44 []
    [leaf "identifier" 6 7 "name",
      spanning "class_body" 8 44 ["body"] [accessor 10 14 18 25, accessor 26 30 35 42]]

def accessorSource : Source :=
  .ofText "t.js" "javascript"
    "class A \x7b get x() \x7b a() \x7d set x(v) \x7b b() \x7d \x7d".toList

/-- The second accessor's call site. -/
def accessorReference : Reference :=
  { key := "b", file := "t.js", line := 1, kind := .call, caller := some "t.js:A.x:1" }

/-- Two accessors on one line share a symbol, which is a method and encloses the calls of both. -/
theorem callers_enclose_accessorClass :
    accessorClass.isNested = true ∧
    accessorReference ∈ (findings accessorSource accessorClass).references ∧
    ¬Hidden accessorSource accessorClass "t.js:A.x:1" ∧
    ∃ d ∈ (findings accessorSource accessorClass).symbols, d.id = "t.js:A.x:1" ∧
      d.kind.isCallable = true ∧ d.line ≤ 1 ∧ 1 ≤ d.endLine := by
  have hnested : accessorClass.isNested = true := by decide +kernel
  have hmem : accessorReference ∈ (findings accessorSource accessorClass).references := by
    decide +kernel
  have hclear : ¬Hidden accessorSource accessorClass "t.js:A.x:1" := by decide +kernel
  obtain ⟨-, d, hd, hid, -, hfirst, hlast⟩ :=
    callers_enclose_unless_hidden accessorSource accessorClass hnested hmem rfl
  obtain ⟨hcallable, hend⟩ := hlast hclear
  exact ⟨hnested, hmem, hclear, d, hd, hid, hcallable, hfirst, hend⟩

/-- An interface, and on the same line the start of a function of the same name. -/
def twoOfOneName : Node :=
  spanning "program" 0 38 []
    [spanning "interface_declaration" 0 14 []
      [token "interface" 0 9, leaf "type_identifier" 10 11 "name",
        spanning "interface_body" 12 14 ["body"] [token "\x7b" 12 13, token "\x7d" 13 14]],
      spanning "function_declaration" 15 37 []
        [token "function" 15 23, leaf "identifier" 24 25 "name",
          spanning "formal_parameters" 25 27 [] [token "(" 25 26, token ")" 26 27],
          spanning "statement_block" 28 37 ["body"]
            [token "\x7b" 28 29,
              spanning "expression_statement" 31 35 [] [plainCall 31, token ";" 34 35],
              token "\x7d" 36 37]]]

def twoOfOneNameSource : Source :=
  .ofText "t.ts" "typescript" "interface f \x7b\x7d function f() \x7b\n g();\n\x7d\n".toList

/-- The call site in the function is attributed to an interface that ends on an earlier line. -/
theorem caller_twoOfOneName_is_interface :
    twoOfOneName.isNested = true ∧
    (findings twoOfOneNameSource twoOfOneName).references =
      [{ key := "g", file := "t.ts", line := 2, kind := .call, caller := some "t.ts:f:1" }] ∧
    (findings twoOfOneNameSource twoOfOneName).symbols.map
        (fun d => (d.id, d.kind, d.line, d.endLine)) =
      [("t.ts:f:1", .interface, 1, 1)] := by
  refine ⟨?_, ?_, ?_⟩ <;> decide +kernel

end Tree

end CodeAtlas
