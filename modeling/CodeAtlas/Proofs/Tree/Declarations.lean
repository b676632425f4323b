import CodeAtlas.Proofs.Tree.References

/-!
# Declarations that are kept

Each place declares at most one symbol, and the pass keeps it unless one with the
same id is there. So a symbol is kept exactly if it is the first with its id, from
the top and the left. Every caller is the id of a function around the call site,
which the pass has come to before, so there is a kept symbol with this id.
-/

namespace CodeAtlas

theorem SymbolKind.isKnown_of_isCallable {kind : SymbolKind} (h : kind.isCallable = true) :
    kind.isKnown = true := by
  cases kind with
  | function | method => rfl
  | classDecl | interface | typeAlias | other => cases h

theorem mem_foldl_addSymbol_iff (ds kept : List Symbol) (d : Symbol) :
    d ∈ ds.foldl addSymbol kept ↔
      d ∈ kept ∨ (∀ t ∈ kept, t.id ≠ d.id) ∧ ds.find? (fun t => t.id == d.id) = some d := by
  induction ds generalizing kept with
  | nil => simp
  | cons e ds ih =>
    rw [List.foldl_cons, ih, addSymbol]
    by_cases he : e.id = d.id
    · rw [List.find?_cons_of_pos (by simpa using he)]
      by_cases hkept : kept.any (fun t => t.id == e.id) = true
      · -- `e` is passed over, and nothing with its id can be added any more
        obtain ⟨t, ht, hid⟩ := List.any_eq_true.mp hkept
        have hid : t.id = d.id := (beq_iff_eq.mp hid).trans he
        have hnot : ¬∀ t ∈ kept, t.id ≠ d.id := fun h => h t ht hid
        simp [hkept, hnot]
      · have hfresh : ∀ t ∈ kept, t.id ≠ d.id := by
          intro t ht hid
          exact hkept (List.any_eq_true.mpr ⟨t, ht, beq_iff_eq.mpr (hid.trans he.symm)⟩)
        have hnot : ¬∀ t ∈ kept ++ [e], t.id ≠ d.id := fun h => h e (by simp) he
        rw [if_neg hkept, iff_true_intro hfresh, iff_false_intro hnot]
        simp [eq_comm]
    · rw [List.find?_cons_of_neg (by simpa using he)]
      have hne : d ≠ e := fun h => he (h ▸ rfl)
      split
      · rfl
      · simp [hne, he, or_imp, forall_and]

theorem exists_mem_foldl_addSymbol {ds : List Symbol} {d : Symbol} (h : d ∈ ds) :
    ∃ e ∈ ds.foldl addSymbol [], e.id = d.id := by
  have hsome : (ds.find? fun t => t.id == d.id).isSome = true :=
    List.find?_isSome.mpr ⟨d, h, beq_self_eq_true _⟩
  obtain ⟨e, he⟩ := Option.isSome_iff_exists.mp hsome
  have hid : e.id = d.id := by simpa using List.find?_some he
  refine ⟨e, (mem_foldl_addSymbol_iff ds [] e).mpr (.inr ⟨by simp, ?_⟩), hid⟩
  rwa [hid]

theorem nodup_ids_foldl_addSymbol (ds : List Symbol) {kept : List Symbol}
    (h : (kept.map Symbol.id).Nodup) : ((ds.foldl addSymbol kept).map Symbol.id).Nodup := by
  induction ds generalizing kept with
  | nil => exact h
  | cons d ds ih =>
    rw [List.foldl_cons]
    apply ih
    rw [addSymbol]
    split
    next => exact h
    next hkept =>
      have hfresh : d.id ∉ kept.map Symbol.id := by
        intro hmem
        obtain ⟨t, ht, hid⟩ := List.mem_map.mp hmem
        exact hkept (List.any_eq_true.mpr ⟨t, ht, beq_iff_eq.mpr hid⟩)
      rw [List.map_append, List.map_singleton]
      exact List.nodup_append.mpr ⟨h, List.pairwise_singleton _ _, by simpa using hfresh⟩

namespace Tree

/-- The declaration at a place. -/
def symbolAt (s : Source) (p : Place) : Option Symbol := (yieldOf s p (contextAt s p)).symbol

theorem isCallable_of_boundName? {s : Source} {p : Place} {ctx : Context} {name : String}
    {kind : SymbolKind} (h : boundName? s p ctx = some (name, kind)) : kind.isCallable = true := by
  unfold boundName? at h
  split at h
  next => cases h
  next parent hparent =>
    split at h
    · split at h
      · split at h <;> cases h
        rfl
      · cases h
    · split at h
      · split at h <;> cases h
        rfl
      · cases h

theorem isCallable_of_ownName? {s : Source} {n : Node} {name : String} {kind : SymbolKind}
    (h : ownName? s n = some (name, kind)) : kind.isCallable = true := by
  obtain ⟨c, -, hc⟩ := Option.map_eq_some_iff.mp h
  cases hc
  rfl

/-- Functions are declared as functions or methods. -/
theorem isCallable_of_functionName? {s : Source} {p : Place} {ctx : Context} {name : String}
    {kind : SymbolKind} (h : functionName? s p ctx = some (name, kind)) :
    kind.isCallable = true := by
  unfold functionName? at h
  split at h
  · split at h
    · split at h <;> cases h
      rfl
    · cases h
  · split at h
    · exact isCallable_of_ownName? h
    · rcases Option.or_eq_some_iff.mp h with h | ⟨-, h⟩
      · exact isCallable_of_boundName? h
      · exact isCallable_of_ownName? h

/-- What is declared at a place has its extent, and a kind that is known. -/
theorem exists_declaration_of_symbolAt {s : Source} {p : Place} {d : Symbol}
    (h : symbolAt s p = some d) :
    ∃ name kind signature, d = declaration s p name kind signature ∧ kind.isKnown = true := by
  unfold symbolAt yieldOf at h
  cases hcategory : Category.ofType p.node.type with
  | function =>
    simp only [hcategory, functionYield] at h
    cases hname : functionName? s p (contextAt s p) with
    | none => simp [hname] at h
    | some named =>
      obtain ⟨name, kind⟩ := named
      rw [hname] at h
      cases h
      exact ⟨name, kind, _, rfl,
        SymbolKind.isKnown_of_isCallable (isCallable_of_functionName? hname)⟩
  | classDecl =>
    simp only [hcategory, classYield] at h
    cases hname : className? s p with
    | none => simp [hname] at h
    | some name =>
      rw [hname] at h
      cases h
      exact ⟨name, .classDecl, _, rfl, rfl⟩
  | interface | typeAlias =>
    simp only [hcategory, typeYield] at h
    obtain ⟨name, -, rfl⟩ := Option.map_eq_some_iff.mp h
    exact ⟨_, _, _, rfl, rfl⟩
  | call =>
    simp only [hcategory, callYield] at h
    split at h <;> cases h
  | importStatement | exportStatement | other =>
    simp only [hcategory] at h
    cases h

/-- A function with a name is declared at its place. -/
theorem exists_symbolAt_of_functionId? {s : Source} {p : Place} {id : String}
    (h : functionId? s p = some id) :
    ∃ d, symbolAt s p = some d ∧ d.id = id ∧ d.kind.isCallable = true := by
  unfold functionId? at h
  split at h
  next hcategory =>
    obtain ⟨⟨name, kind⟩, hname, rfl⟩ := Option.map_eq_some_iff.mp h
    -- the name depends on the classes of the context alone
    have hname : functionName? s p (contextAt s p) = some (name, kind) := hname
    refine ⟨declaration s p name kind (functionSignature s p.node), ?_, rfl,
      isCallable_of_functionName? hname⟩
    simp only [symbolAt, yieldOf, hcategory, functionYield, hname]
  next => cases h

theorem symbols_foldl_recordAt (s : Source) (ps : List Place) (notes : Notes) :
    (ps.foldl (recordAt s) notes).symbols =
      (ps.filterMap (symbolAt s)).foldl addSymbol notes.symbols := by
  induction ps generalizing notes with
  | nil => rfl
  | cons p ps ih =>
    have hstep : (recordAt s notes p).symbols =
        (symbolAt s p).elim notes.symbols (addSymbol notes.symbols) := rfl
    rw [List.foldl_cons, ih, hstep, List.filterMap_cons]
    cases symbolAt s p <;> rfl

/-- All declarations of the places that the pass comes to, in their order. -/
def declared (s : Source) (root : Node) : List Symbol :=
  (places s [] root).filterMap (symbolAt s)

theorem mem_declared_iff {s : Source} {root : Node} {d : Symbol} :
    d ∈ declared s root ↔ ∃ p ∈ places s [] root, symbolAt s p = some d :=
  List.mem_filterMap

theorem symbols_findings (s : Source) (root : Node) :
    (findings s root).symbols = (declared s root).foldl addSymbol [] :=
  (congrArg Notes.symbols (visit_eq_foldl s root [] { errors := errorNote s root })).trans
    (symbols_foldl_recordAt s (places s [] root) { errors := errorNote s root })

/-- A symbol is kept exactly if it is the first one declared with its id. -/
theorem mem_symbols_findings_iff {s : Source} {root : Node} {d : Symbol} :
    d ∈ (findings s root).symbols ↔
      (declared s root).find? (fun t => t.id == d.id) = some d := by
  rw [symbols_findings, mem_foldl_addSymbol_iff]
  simp

theorem nodup_ids_findings (s : Source) (root : Node) :
    ((findings s root).symbols.map Symbol.id).Nodup := by
  rw [symbols_findings]
  exact nodup_ids_foldl_addSymbol _ List.nodup_nil

/-- What is declared is kept, or there is a symbol in its place. -/
theorem exists_mem_symbols_of_mem_declared {s : Source} {root : Node} {d : Symbol}
    (h : d ∈ declared s root) : ∃ e ∈ (findings s root).symbols, e.id = d.id := by
  rw [symbols_findings]
  exact exists_mem_foldl_addSymbol h

/-- A kept symbol is declared at a place that the pass comes to before all others with its id. -/
theorem exists_place_of_mem_symbols {s : Source} {root : Node} {d : Symbol}
    (h : d ∈ (findings s root).symbols) :
    ∃ earlier p later, places s [] root = earlier ++ p :: later ∧ symbolAt s p = some d ∧
      ∀ q ∈ earlier, ∀ e, symbolAt s q = some e → e.id ≠ d.id := by
  rw [mem_symbols_findings_iff, declared, List.find?_filterMap, Option.bind_eq_some_iff] at h
  obtain ⟨p, hp, hd⟩ := h
  obtain ⟨-, earlier, later, hsplit, hearlier⟩ := List.find?_eq_some_iff_append.mp hp
  refine ⟨earlier, p, later, hsplit, hd, ?_⟩
  intro q hq e he hid
  have hnot := hearlier q hq
  simp [he, hid] at hnot

theorem mem_references_findings_iff {s : Source} {root : Node} {r : Reference} :
    r ∈ (findings s root).references ↔ ∃ p ∈ places s [] root, r ∈ referencesAt s p := by
  have hreferences : (findings s root).references =
      (places s [] root).flatMap (referencesAt s) :=
    (congrArg Notes.references (visit_eq_foldl s root [] { errors := errorNote s root })).trans
      (foldl_recordAt s (places s [] root) { errors := errorNote s root }).1
  rw [hreferences, List.mem_flatMap]

/-- The places around one that the pass comes to are places that it comes to. -/
theorem mem_places_of_mem_outwards {s : Source} {root : Node} {p q : Place}
    (hp : p ∈ places s [] root) (hq : q ∈ Place.outwards p.above) : q ∈ places s [] root := by
  have hreached : Reached s (.root root) p := mem_places_iff_reached.mp hp
  clear hp
  induction hreached with
  | refl => cases hq
  | child h hopen hsplit hnamed ih =>
    rw [Place.child, Place.outwards, List.mem_cons] at hq
    rcases hq with rfl | hq
    · exact mem_places_iff_reached.mpr h
    · exact ih hq

/-- The caller of a call site is a function around it. -/
theorem exists_function_of_caller {s : Source} {p : Place} {r : Reference} {id : String}
    (hr : r ∈ referencesAt s p) (hid : r.caller = some id) :
    ∃ q ∈ Place.outwards p.above, functionId? s q = some id := by
  rw [caller_of_mem_referencesAt hr] at hid
  obtain ⟨inner, q, outer, hlineage, hq, -, -⟩ := (caller_contextAt_iff s p id).mp hid
  have houtwards : Place.outwards p.above = inner ++ q :: outer := (List.cons.inj hlineage).2
  refine ⟨q, ?_, hq⟩
  rw [houtwards]
  simp

/-- A call site is one of the callee or of an argument. -/
theorem referencesAt_cases {s : Source} {p : Place} {r : Reference} (h : r ∈ referencesAt s p) :
    r.file = s.file ∧ (r.kind = .call ∧ r.line = s.line p.node ∨
      r.kind = .callback ∧ ∃ arguments arg, arguments ∈ p.node.children ∧
        arg ∈ arguments.children ∧ r.line = s.line arg) := by
  unfold referencesAt at h
  split at h
  next =>
    rw [callReferences, List.mem_append] at h
    rcases h with h | h
    · cases hf : p.node.child? "function" with
      | none => simp [hf] at h
      | some f =>
        rw [hf] at h
        obtain ⟨key, -, rfl⟩ := List.mem_map.mp h
        exact ⟨rfl, .inl ⟨rfl, rfl⟩⟩
    · cases hargs : p.node.child? "arguments" with
      | none => simp [hargs] at h
      | some arguments =>
        simp only [hargs] at h
        split at h
        next =>
          obtain ⟨arg, harg, hkey⟩ := List.mem_filterMap.mp h
          obtain ⟨key, -, rfl⟩ := Option.map_eq_some_iff.mp hkey
          exact ⟨rfl, .inr ⟨rfl, arguments, arg, List.mem_of_find?_eq_some hargs,
            List.mem_of_mem_filter harg, rfl⟩⟩
        next => cases h
  next => cases h

end Tree

end CodeAtlas
