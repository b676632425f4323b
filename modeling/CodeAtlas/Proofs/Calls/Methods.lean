import CodeAtlas.Proofs.Calls.Edges
import CodeAtlas.Proofs.Consistency

/-!
# Methods of an unknown owner

A call of a member whose receiver is not the object itself is recorded a second
time, by the name of the member alone. The resolver reads this name as it was
written and finds every method that is called so, in whatever file. Together with
the caller, which is declared wherever there is one, the call graph has an edge to
each of these methods.
-/

namespace CodeAtlas

namespace Tree

/-- A call of a member of something that is not the object itself. -/
structure IsMemberCall (n prop : Node) : Prop where
  category : Category.ofType n.type = .call
  callee : ∃ f, n.child? "function" = some f ∧ f.type = "member_expression" ∧
    f.child? "property" = some prop ∧
    ∀ receiver, f.child? "object" = some receiver → isSelf receiver = false

/-- A member does not load a module. -/
theorem requireImport?_of_member {s : Source} {p : Place} {f : Node}
    (hf : p.node.child? "function" = some f) (htype : f.type = "member_expression") :
    requireImport? s p = none := by
  simp [requireImport?, hf, htype]

/-- The name of the member is recorded behind the wildcard mark. -/
theorem wildcard_mem_calleeKeys {s : Source} {f prop : Node} (ctx : Context)
    (htype : f.type = "member_expression") (hprop : f.child? "property" = some prop)
    (hreceiver : ∀ receiver, f.child? "object" = some receiver → isSelf receiver = false) :
    wildcardMark ++ s.text prop ∈ calleeKeys s f ctx := by
  have hself : ((f.child? "object").map isSelf).getD false = false := by
    cases hobject : f.child? "object" with
    | none => rfl
    | some receiver => exact hreceiver receiver hobject
  simp [calleeKeys, htype, hprop, hself]

theorem IsMemberCall.exists_reference {s : Source} {p : Place} {prop : Node}
    (h : IsMemberCall p.node prop) :
    ∃ r ∈ referencesAt s p, r.key = wildcardMark ++ s.text prop ∧ r.kind = .call ∧
      r.caller = (contextAt s p).caller := by
  obtain ⟨f, hf, htype, hprop, hreceiver⟩ := h.callee
  rw [referencesAt, if_pos ⟨h.category, requireImport?_of_member hf htype⟩, callReferences, hf]
  refine ⟨_, List.mem_append_left _ (List.mem_map.mpr
    ⟨_, wildcard_mem_calleeKeys (contextAt s p) htype hprop hreceiver, rfl⟩), rfl, rfl, rfl⟩

end Tree

namespace Index

open CodeAtlas.Tree

/-- The index of the trees of some files. -/
def ofTrees (base : String) (walked : List (Source × Node)) : Index :=
  merge base (walked.map fun w => findings w.1 w.2)

/-- The caller of a call site is declared. -/
theorem exists_get?_of_caller (base : String) {walked : List (Source × Node)} {w : Source × Node}
    (hw : w ∈ walked) {r : Reference} (hr : r ∈ (findings w.1 w.2).references) {id : String}
    (hid : r.caller = some id) : ∃ s, (ofTrees base walked).symbols.get? id = some s := by
  obtain ⟨s, hs, rfl⟩ := (wellFormed_findings w.1 w.2).caller r hr id hid
  rw [ofTrees, merge, symbols_foldl_add]
  apply exists_get?_insertAll
  exact .inl ⟨s, List.mem_flatMap.mpr ⟨_, List.mem_map.mpr ⟨w, hw, rfl⟩, hs⟩, rfl⟩

/-- At every call of a member whose receiver is not the object itself, the caller is declared, and
the call graph lists with it every method of that name in any of the files. -/
theorem callGraph_lists_every_method (base : String) (walked : List (Source × Node))
    {w : Source × Node} (hw : w ∈ walked) {p : Place} (hp : Reached w.1 (.root w.2) p)
    {prop : Node} (hcall : IsMemberCall p.node prop) {id : String}
    (hid : (contextAt w.1 p).caller = some id) :
    ∃ caller, (ofTrees base walked).symbols.get? id = some caller ∧
      ∀ i m, (ofTrees base walked).symbols.get? i = some m → m.kind = .method →
        m.shortName = w.1.text prop →
        ∃ ds, (ofTrees base walked).callGraph.get? caller.name = some ds ∧ m.name ∈ ds := by
  obtain ⟨r, hr, hkey, hkind, hcaller⟩ := hcall.exists_reference (s := w.1)
  have hmem : r ∈ (findings w.1 w.2).references :=
    mem_references_findings_iff.mpr ⟨p, mem_places_iff_reached.mpr hp, hr⟩
  obtain ⟨caller, hget⟩ := exists_get?_of_caller base hw hmem (hcaller.trans hid)
  refine ⟨caller, hget, ?_⟩
  intro i m hm hmethod hname
  have hcalls : (ofTrees base walked).Calls r caller.name m.name :=
    ⟨.inl hkind, ⟨id, caller, hcaller.trans hid, hget, rfl⟩,
      m, (Resolver.mem_resolve_wildcard_iff hkey).mpr ⟨⟨i, hm⟩, hmethod, hname⟩, rfl⟩
  have hedge : (ofTrees base walked).callGraph.Edge caller.name m.name :=
    edge_callGraph_iff.mpr
      ⟨r, mem_allReferences_merge_iff.mpr ⟨_, List.mem_map.mpr ⟨w, hw, rfl⟩, hmem⟩, hcalls⟩
  obtain ⟨ds, hds⟩ := exists_get?_callGraph_iff.mpr ⟨_, hedge⟩
  exact ⟨ds, hds, by simpa [Graph.Edge, Graph.neighbours, hds] using hedge⟩

def memberCall : Node :=
  spanning "call_expression" 2 5 [] [spanning "member_expression" 2 5 ["function"]
    [leaf "identifier" 2 3 "object", leaf "property_identifier" 4 5 "property"]]

def memberFunction : Node :=
  spanning "function_declaration" 0 5 [] [leaf "identifier" 0 1 "name", memberCall]

def memberSource : Source := .ofText "u.js" "javascript" "f o.m".toList

def memberPlace : Place :=
  (Place.root memberFunction).child [leaf "identifier" 0 1 "name"] memberCall

/-- A file with a class that has a method, and one that calls a method of that name. -/
def twoTrees : List (Source × Node) := [(selfSource, selfClass), (memberSource, memberFunction)]

theorem callGraph_lists_method_of_selfClass :
    Reached memberSource (.root memberFunction) memberPlace ∧
    IsMemberCall memberPlace.node (leaf "property_identifier" 4 5 "property") ∧
    (contextAt memberSource memberPlace).caller = some "u.js:f:1" ∧
    ∃ ds, (ofTrees "" twoTrees).callGraph.get? "f" = some ds ∧ "A.m" ∈ ds := by
  have hsplit : memberFunction.children =
      [leaf "identifier" 0 1 "name"].reverse ++ memberCall :: [] := rfl
  have hp : Reached memberSource (.root memberFunction) memberPlace := .child .refl rfl hsplit rfl
  have hcall : IsMemberCall memberPlace.node (leaf "property_identifier" 4 5 "property") := by
    refine ⟨rfl, _, rfl, rfl, rfl, ?_⟩
    rintro receiver ⟨⟩
    decide
  have hid : (contextAt memberSource memberPlace).caller = some "u.js:f:1" := by decide +kernel
  have hw : (memberSource, memberFunction) ∈ twoTrees := by simp [twoTrees]
  obtain ⟨caller, hcaller, hlists⟩ := callGraph_lists_every_method "" twoTrees hw hp hcall hid
  have hname : ((ofTrees "" twoTrees).symbols.get? "u.js:f:1").map Symbol.name = some "f" := by
    decide +kernel
  have hmethod : ∃ m, (ofTrees "" twoTrees).symbols.get? "t.js:A.m:1" = some m ∧
      m.kind = .method ∧ m.shortName = "m" ∧ m.name = "A.m" := by
    refine ⟨_, rfl, ?_⟩
    decide +kernel
  obtain ⟨m, hm, hkind, hshort, hmname⟩ := hmethod
  rw [hcaller, Option.map_some, Option.some.injEq] at hname
  have hds := hlists _ m hm hkind (hshort.trans (by decide +kernel))
  rw [hname, hmname] at hds
  exact ⟨hp, hcall, hid, hds⟩

end Index

end CodeAtlas
