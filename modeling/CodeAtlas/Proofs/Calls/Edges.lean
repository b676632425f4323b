import CodeAtlas.Proofs.Calls.Resolution

/-!
# The edges of the call graph

The call graph has an edge from one name to another exactly if some call site has a
caller of the first name and can mean a declaration of the second. Each list of
callees holds at least one name and none twice. If no two findings declare the same
id, they can be merged in any order: callers, callees and the call sites that lead
nowhere stay the same.
-/

namespace CodeAtlas.Index

/-- At a call site a declaration of name `c` calls one of name `d`. -/
structure Calls (x : Index) (ref : Reference) (c d : String) : Prop where
  kind : ref.kind = .call ∨ ref.kind = .callback
  caller : ∃ id s, ref.caller = some id ∧ x.symbols.get? id = some s ∧ s.name = c
  callee : ∃ s ∈ (Resolver.ofIndex x).resolve ref, s.name = d

theorem isKnown_iff (kind : ReferenceKind) :
    kind.isKnown = true ↔ kind = .call ∨ kind = .callback := by
  cases kind <;> simp [ReferenceKind.isKnown]

theorem mem_callsOf_iff {x : Index} {ref : Reference} {c d : String} :
    (c, d) ∈ x.callsOf (.ofIndex x) ref ↔ x.Calls ref c d := by
  rw [callsOf]
  constructor
  · intro h
    split at h
    next hkind =>
      split at h
      next caller hcaller =>
        obtain ⟨id, hid, hget⟩ := Option.bind_eq_some_iff.mp hcaller
        obtain ⟨s, hs, heq⟩ := List.mem_map.mp h
        obtain ⟨rfl, rfl⟩ := Prod.mk.inj heq
        exact ⟨(isKnown_iff _).mp hkind, ⟨id, caller, hid, hget, rfl⟩, ⟨s, hs, rfl⟩⟩
      next => cases h
    next => cases h
  · rintro ⟨hkind, ⟨id, caller, hid, hget, rfl⟩, ⟨s, hs, rfl⟩⟩
    have hcaller : ref.caller.bind x.symbols.get? = some caller := by rw [hid]; exact hget
    rw [if_pos ((isKnown_iff _).mpr hkind), hcaller]
    exact List.mem_map.mpr ⟨s, hs, rfl⟩

/-- The calls of all call sites, in the order in which the graph takes them. -/
def calls (x : Index) : List (String × String) :=
  x.sites.flatMap (x.callsOf (.ofIndex x))

theorem mem_calls_iff {x : Index} {c d : String} :
    (c, d) ∈ x.calls ↔ ∃ ref ∈ x.allReferences, x.Calls ref c d := by
  simp only [calls, sites, List.mem_flatMap, List.mem_mergeSort, mem_callsOf_iff]

theorem get?_callGraph (x : Index) (c : String) :
    x.callGraph.get? c =
      if (Table.listed x.calls c).isEmpty then none else some (Table.listed x.calls c) :=
  Table.get?_foldl_pushNew x.calls c

theorem neighbours_callGraph (x : Index) (c : String) :
    x.callGraph.neighbours c = Table.listed x.calls c := by
  rw [Graph.neighbours, get?_callGraph]
  split
  next hempty => simpa using hempty.symm
  next => rfl

theorem edge_callGraph_iff {x : Index} {c d : String} :
    x.callGraph.Edge c d ↔ ∃ ref ∈ x.allReferences, x.Calls ref c d := by
  rw [Graph.Edge, neighbours_callGraph, ← mem_calls_iff, Table.listed]
  simp

/-- Callees are listed once each, and only for callers that have some. -/
theorem callees_of_get?_callGraph {x : Index} {c : String} {ds : List String}
    (h : x.callGraph.get? c = some ds) : ds ≠ [] ∧ ds.Nodup := by
  rw [get?_callGraph] at h
  split at h
  next => cases h
  next hne =>
    obtain rfl := Option.some.inj h
    exact ⟨by simpa using hne, Order.nodup_eraseDups _⟩

theorem exists_get?_callGraph_iff {x : Index} {c : String} :
    (∃ ds, x.callGraph.get? c = some ds) ↔ ∃ d, x.callGraph.Edge c d := by
  constructor
  · rintro ⟨ds, hds⟩
    obtain ⟨d, hd⟩ := List.exists_mem_of_ne_nil ds (callees_of_get?_callGraph hds).1
    exact ⟨d, by simpa [Graph.Edge, Graph.neighbours, hds] using hd⟩
  · rintro ⟨d, hd⟩
    cases hget : x.callGraph.get? c with
    | none => simp [Graph.Edge, Graph.neighbours, hget] at hd
    | some ds => exact ⟨ds, rfl⟩

/-- No id is declared by both of two findings. -/
def Apart (f g : Findings) : Prop := ∀ s ∈ f.symbols, ∀ t ∈ g.symbols, s.id ≠ t.id

theorem Apart.symm {f g : Findings} (h : Apart f g) : Apart g f :=
  fun s hs t ht hid => h t ht s hs hid.symm

/-- With ids apart, an id stands for the last declaration that one of the findings has for it. -/
theorem get?_symbols_merge_iff {base : String} {fs : List Findings} (h : fs.Pairwise Apart)
    {id : String} {s : Symbol} :
    (merge base fs).symbols.get? id = some s ↔
      ∃ f ∈ fs, (f.symbols.map fun t => (t.id, t)).reverse.lookup id = some s := by
  rw [get?_symbols_merge]
  induction fs with
  | nil => simp
  | cons f fs ih =>
    obtain ⟨hf, hfs⟩ := List.pairwise_cons.mp h
    rw [List.flatMap_cons, List.map_append, List.reverse_append, List.lookup_append,
      Option.or_eq_some_iff, ih hfs, List.exists_mem_cons_iff, or_comm]
    refine or_congr_left ⟨And.right, fun hs => ⟨?_, hs⟩⟩
    -- no other findings have a declaration with this id
    rw [Option.eq_none_iff_forall_ne_some]
    intro t ht
    obtain ⟨hsmem, hsid⟩ := mem_and_id_of_lookup hs
    obtain ⟨htmem, htid⟩ := mem_and_id_of_lookup ht
    obtain ⟨g, hg, htmem⟩ := List.mem_flatMap.mp htmem
    exact hf g hg s hsmem t htmem (hsid.trans htid.symm)

section

variable {base : String} {fs gs : List Findings} (hperm : gs.Perm fs) (hapart : fs.Pairwise Apart)

include hperm hapart

theorem get?_symbols_merge_perm (id : String) :
    (merge base gs).symbols.get? id = (merge base fs).symbols.get? id := by
  have hapart' : gs.Pairwise Apart := (hperm.pairwise_iff fun h => Apart.symm h).mpr hapart
  apply Option.ext
  intro s
  rw [get?_symbols_merge_iff hapart, get?_symbols_merge_iff hapart']
  simp only [hperm.mem_iff]

theorem ofIndex_merge_perm :
    Resolver.ofIndex (merge base gs) = Resolver.ofIndex (merge base fs) :=
  Resolver.ofIndex_eq_of_get?_eq (keyedById_merge base gs) (keyedById_merge base fs)
    (get?_symbols_merge_perm hperm hapart)

theorem calls_merge_perm_iff {ref : Reference} {c d : String} :
    (merge base gs).Calls ref c d ↔ (merge base fs).Calls ref c d := by
  constructor
  · rintro ⟨hkind, hcaller, hcallee⟩
    simp only [get?_symbols_merge_perm hperm hapart] at hcaller
    rw [ofIndex_merge_perm hperm hapart] at hcallee
    exact ⟨hkind, hcaller, hcallee⟩
  · rintro ⟨hkind, hcaller, hcallee⟩
    simp only [← get?_symbols_merge_perm hperm hapart] at hcaller
    rw [← ofIndex_merge_perm hperm hapart] at hcallee
    exact ⟨hkind, hcaller, hcallee⟩

theorem unresolved_merge_perm :
    (merge base gs).unresolved.Perm (merge base fs).unresolved := by
  have hreferences : (merge base gs).allReferences.Perm (merge base fs).allReferences := by
    rw [allReferences_merge, allReferences_merge]
    exact (List.mergeSort_perm _ _).trans
      ((hperm.flatMap_right Findings.references).trans (List.mergeSort_perm _ _).symm)
  rw [unresolved, unresolved, ofIndex_merge_perm hperm hapart]
  exact hreferences.filter _

end

/-- The call graph of a merged index has an edge for each call of a call site and no other, and its
lists are neither empty nor repeat a name. Findings that declare no id in common give the same
callers, callees and unresolved call sites in whatever order they are merged. -/
theorem callGraph_merge_exact (base : String) (fs : List Findings) :
    (∀ c d, (merge base fs).callGraph.Edge c d ↔
      ∃ f ∈ fs, ∃ ref ∈ f.references, (merge base fs).Calls ref c d) ∧
    (∀ c ds, (merge base fs).callGraph.get? c = some ds → ds ≠ [] ∧ ds.Nodup) ∧
    (fs.Pairwise Apart → ∀ gs, gs.Perm fs →
      (∀ c, (∃ ds, (merge base gs).callGraph.get? c = some ds) ↔
        ∃ ds, (merge base fs).callGraph.get? c = some ds) ∧
      (∀ c d, (merge base gs).callGraph.Edge c d ↔ (merge base fs).callGraph.Edge c d) ∧
      (merge base gs).unresolved.Perm (merge base fs).unresolved) := by
  have hedges : ∀ fs c d, (merge base fs).callGraph.Edge c d ↔
      ∃ f ∈ fs, ∃ ref ∈ f.references, (merge base fs).Calls ref c d := by
    intro fs c d
    simp only [edge_callGraph_iff, mem_allReferences_merge_iff]
    constructor
    · rintro ⟨ref, ⟨f, hf, href⟩, hcall⟩
      exact ⟨f, hf, ref, href, hcall⟩
    · rintro ⟨f, hf, ref, href, hcall⟩
      exact ⟨ref, ⟨f, hf, href⟩, hcall⟩
  refine ⟨hedges fs, fun c ds => callees_of_get?_callGraph, ?_⟩
  intro hapart gs hperm
  have hsame : ∀ c d, (merge base gs).callGraph.Edge c d ↔ (merge base fs).callGraph.Edge c d := by
    intro c d
    rw [hedges, hedges]
    simp only [calls_merge_perm_iff hperm hapart, hperm.mem_iff]
  refine ⟨?_, hsame, unresolved_merge_perm hperm hapart⟩
  intro c
  simp only [exists_get?_callGraph_iff, hsame]

def saveMethod (file owner : String) : Symbol :=
  ⟨file ++ ":" ++ owner ++ ".save:1", owner ++ ".save", .method, file, 1, 1, false, "", none⟩

def runFunction : Symbol := ⟨"a.js:run:2", "run", .function, "a.js", 2, 2, false, "", none⟩

/-- A call of a method whose owner is not known. -/
def saveSite : Reference :=
  { key := "*.save", file := "a.js", line := 2, caller := some "a.js:run:2" }

def callingFile : Findings where
  file := "a.js"
  language := "javascript"
  symbols := [saveMethod "a.js" "A", runFunction]
  references := [saveSite]

def otherFile : Findings where
  file := "b.js"
  language := "javascript"
  symbols := [saveMethod "b.js" "B"]

/-- The call can mean a method of the other file, which of the two files may come first. -/
theorem callGraph_merge_otherFile_first :
    [callingFile, otherFile].Pairwise Apart ∧
    [otherFile, callingFile].Perm [callingFile, otherFile] ∧
    (merge "" [otherFile, callingFile]).callGraph.Edge "run" "B.save" ∧
    (merge "" [otherFile, callingFile]).unresolved.Perm
      (merge "" [callingFile, otherFile]).unresolved := by
  have hapart : [callingFile, otherFile].Pairwise Apart := by
    simp [Apart, callingFile, otherFile, saveMethod, runFunction]
  have hperm : [otherFile, callingFile].Perm [callingFile, otherFile] := .swap _ _ _
  obtain ⟨hedges, -, horder⟩ := callGraph_merge_exact "" [callingFile, otherFile]
  obtain ⟨-, hsame, hunresolved⟩ := horder hapart _ hperm
  refine ⟨hapart, hperm, ?_, hunresolved⟩
  rw [hsame, hedges]
  refine ⟨callingFile, List.mem_cons_self, saveSite, List.mem_cons_self, .inl rfl, ?_,
    saveMethod "b.js" "B", ?_, rfl⟩
  · exact ⟨"a.js:run:2", runFunction, rfl, by decide +kernel, rfl⟩
  · have hkey : saveSite.key = wildcardMark ++ "save" := by decide +kernel
    rw [Resolver.mem_resolve_wildcard_iff hkey]
    exact ⟨⟨"b.js:B.save:1", by decide +kernel⟩, rfl, by decide +kernel⟩

end CodeAtlas.Index
