import CodeAtlas.Index
import CodeAtlas.Proofs.Table
import CodeAtlas.Proofs.Tree.Declarations

/-!
# The index is consistent

What the pass over a tree finds is well formed: ids are distinct and made of file,
name and line, kinds are known, and every caller is declared. Merging well formed
findings keeps the index consistent, whatever files and symbols they take the place
of: symbols are replaced and never removed, so an id that a file lists stays
declared.
-/

namespace CodeAtlas

/-- What holds of the findings of one file by themselves. -/
structure Findings.WellFormed (f : Findings) : Prop where
  nodup_ids : (f.symbols.map Symbol.id).Nodup
  symbol_id : ∀ d ∈ f.symbols, d.id = symbolId f.file d.name d.line
  symbol_kind : ∀ d ∈ f.symbols, d.kind.isKnown = true
  symbol_file : ∀ d ∈ f.symbols, d.file = f.file
  reference_kind : ∀ r ∈ f.references, r.kind.isKnown = true
  reference_file : ∀ r ∈ f.references, r.file = f.file
  caller : ∀ r ∈ f.references, ∀ id, r.caller = some id → ∃ d ∈ f.symbols, d.id = id

theorem Tree.wellFormed_findings (s : Source) (root : Node) : (findings s root).WellFormed := by
  have hdeclaration : ∀ d ∈ (findings s root).symbols,
      ∃ p name kind signature, d = declaration s p name kind signature ∧ kind.isKnown = true := by
    intro d hd
    obtain ⟨earlier, p, later, -, hp, -⟩ := exists_place_of_mem_symbols hd
    exact ⟨p, exists_declaration_of_symbolAt hp⟩
  have hcases : ∀ r ∈ (findings s root).references,
      r.file = s.file ∧ r.kind.isKnown = true := by
    intro r hr
    obtain ⟨p, -, hp⟩ := mem_references_findings_iff.mp hr
    obtain ⟨hfile, ⟨hkind, -⟩ | ⟨hkind, -⟩⟩ := referencesAt_cases hp
    · exact ⟨hfile, by rw [hkind]; rfl⟩
    · exact ⟨hfile, by rw [hkind]; rfl⟩
  refine ⟨nodup_ids_findings s root, ?_, ?_, ?_, fun r hr => (hcases r hr).2,
    fun r hr => (hcases r hr).1, ?_⟩
  · intro d hd
    obtain ⟨p, name, kind, signature, rfl, -⟩ := hdeclaration d hd
    rfl
  · intro d hd
    obtain ⟨p, name, kind, signature, rfl, hkind⟩ := hdeclaration d hd
    exact hkind
  · intro d hd
    obtain ⟨p, name, kind, signature, rfl, -⟩ := hdeclaration d hd
    rfl
  · intro r hr id hid
    obtain ⟨p, hp, hrp⟩ := mem_references_findings_iff.mp hr
    obtain ⟨q, hq, hfunction⟩ := exists_function_of_caller hrp hid
    obtain ⟨d, hd, rfl, -⟩ := exists_symbolAt_of_functionId? hfunction
    apply exists_mem_symbols_of_mem_declared
    exact mem_declared_iff.mpr ⟨q, mem_places_of_mem_outwards hp hq, hd⟩

namespace Index

/-- Every id that a file lists is declared. -/
def ListsDeclared (x : Index) : Prop :=
  ∀ path entry, x.files.get? path = some entry →
    ∀ id ∈ entry.symbols, ∃ d, x.symbols.get? id = some d

/-- Every id that a file lists is declared, and no kind is unknown. -/
structure Consistent (x : Index) : Prop where
  listed : x.ListsDeclared
  symbol_kind : ∀ id d, x.symbols.get? id = some d → d.kind.isKnown = true
  reference_kind : ∀ key rs, x.references.get? key = some rs → ∀ r ∈ rs, r.kind.isKnown = true

theorem problems_eq_nil_of_consistent {x : Index} (h : x.Consistent) : x.problems = [] := by
  have hlisted : ∀ p ∈ x.files.entries, ∀ id ∈ p.2.symbols, x.symbols.contains id = true := by
    rintro ⟨path, entry⟩ hp id hid
    obtain ⟨d, hd⟩ := h.listed path entry ((Table.mem_entries_iff _ _ _).mp hp) id hid
    have hmem : (id, d) ∈ x.symbols.entries := (Table.mem_entries_iff _ _ _).mpr hd
    exact List.contains_iff_mem.mpr (List.mem_map.mpr ⟨(id, d), hmem, rfl⟩)
  have hsymbols : ∀ d ∈ x.symbols.values, d.kind.isKnown = true := by
    intro d hd
    obtain ⟨⟨id, d⟩, hp, rfl⟩ := List.mem_map.mp hd
    exact h.symbol_kind id d ((Table.mem_entries_iff _ _ _).mp hp)
  have hreferences : ∀ r ∈ x.allReferences, r.kind.isKnown = true := by
    intro r hr
    obtain ⟨rs, hrs, hr⟩ := List.mem_flatten.mp hr
    obtain ⟨⟨key, rs⟩, hp, rfl⟩ := List.mem_map.mp hrs
    exact h.reference_kind key rs ((Table.mem_entries_iff _ _ _).mp hp) r hr
  simp only [problems, List.append_eq_nil_iff, List.flatMap_eq_nil_iff, List.map_eq_nil_iff,
    List.filter_eq_nil_iff, Bool.not_eq_true, Bool.not_eq_false']
  exact ⟨⟨hlisted, hsymbols⟩, hreferences⟩

theorem exists_get?_insertAll {t : Table Symbol} {ds : List Symbol} {id : String}
    (h : (∃ d ∈ ds, d.id = id) ∨ ∃ d, t.get? id = some d) :
    ∃ d, (t.insertAll (ds.map fun d => (d.id, d))).get? id = some d := by
  rw [Table.get?_insertAll]
  cases hlookup : (ds.map fun d => (d.id, d)).reverse.lookup id with
  | some d => exact ⟨d, rfl⟩
  | none =>
    rcases h with ⟨d, hd, rfl⟩ | h
    · obtain ⟨e, he⟩ := Table.exists_lookup_of_mem
        (List.mem_map.mpr ⟨d, hd, rfl⟩ : (d.id, d) ∈ ds.map fun d => (d.id, d))
      rw [hlookup] at he
      cases he
    · exact h

theorem mem_or_get?_of_get?_insertAll {t : Table Symbol} {ds : List Symbol} {id : String}
    {d : Symbol} (h : (t.insertAll (ds.map fun d => (d.id, d))).get? id = some d) :
    d ∈ ds ∨ t.get? id = some d := by
  rw [Table.get?_insertAll, Option.or_eq_some_iff] at h
  rcases h with h | ⟨-, h⟩
  · obtain ⟨l₁, l₂, hl, -⟩ := List.lookup_eq_some_iff.mp h
    have hmem : (id, d) ∈ (ds.map fun d => (d.id, d)).reverse := by simp [hl]
    obtain ⟨e, he, heq⟩ := List.mem_map.mp (List.mem_reverse.mp hmem)
    cases heq
    exact .inl he
  · exact .inr h

/-- After call sites are added, each one listed was listed before or is one of them. -/
theorem mem_or_mem_of_get?_foldl_push {t : Table (List Reference)} {rs : List Reference}
    {key : String} {held : List Reference} {r : Reference}
    (h : (rs.foldl (fun t r => t.push r.key r) t).get? key = some held) (hr : r ∈ held) :
    r ∈ rs ∨ ∃ earlier, t.get? key = some earlier ∧ r ∈ earlier := by
  induction rs generalizing t with
  | nil => exact .inr ⟨held, h, hr⟩
  | cons r₀ rs ih =>
    rcases ih h with hmem | ⟨earlier, hget, hmem⟩
    · exact .inl (List.mem_cons_of_mem _ hmem)
    · have hget : (t.push r₀.key r₀).get? key = some earlier := hget
      rw [Table.get?_push] at hget
      by_cases hkey : key = r₀.key
      · rw [if_pos hkey, Option.some.injEq] at hget
        subst hget
        rcases List.mem_append.mp hmem with hmem | hmem
        · cases hheld : t.get? r₀.key with
          | none => simp [hheld] at hmem
          | some old =>
            rw [hheld] at hmem
            exact .inr ⟨old, by rw [hkey, hheld], hmem⟩
        · rw [List.mem_singleton.mp hmem]
          exact .inl List.mem_cons_self
      · rw [if_neg hkey] at hget
        exact .inr ⟨earlier, hget, hmem⟩

/-- Merging replaces declarations and never removes one. -/
theorem ListsDeclared.add {x : Index} (hx : x.ListsDeclared) (f : Findings) :
    (x.add f).ListsDeclared := by
  intro path entry hentry id hid
  apply exists_get?_insertAll
  have hentry : (x.files.insert f.file (.ofFindings f)).get? path = some entry := hentry
  rw [Table.get?_insert] at hentry
  by_cases hpath : path = f.file
  · rw [if_pos hpath, Option.some.injEq] at hentry
    subst hentry
    exact .inl (List.mem_map.mp hid)
  · rw [if_neg hpath] at hentry
    exact .inr (hx path entry hentry id hid)

/-- Merging the well formed findings of one file keeps the index consistent. -/
theorem Consistent.add {x : Index} {f : Findings} (hx : x.Consistent) (hf : f.WellFormed) :
    (x.add f).Consistent := by
  refine ⟨hx.listed.add f, ?_, ?_⟩
  · intro id d hd
    rcases mem_or_get?_of_get?_insertAll hd with hd | hd
    · exact hf.symbol_kind d hd
    · exact hx.symbol_kind id d hd
  · intro key rs hrs r hr
    rcases mem_or_mem_of_get?_foldl_push hrs hr with hr | ⟨earlier, hget, hr⟩
    · exact hf.reference_kind r hr
    · exact hx.reference_kind key earlier hget r hr

theorem Consistent.foldl_add {x : Index} {fs : List Findings} (hx : x.Consistent)
    (hfs : ∀ f ∈ fs, f.WellFormed) : (fs.foldl Index.add x).Consistent := by
  induction fs generalizing x with
  | nil => exact hx
  | cons f fs ih =>
    apply ih (hx.add (hfs f List.mem_cons_self))
    intro g hg
    exact hfs g (List.mem_cons_of_mem _ hg)

theorem consistent_empty (root : String) : Consistent { root } := by
  refine ⟨?_, ?_, ?_⟩ <;> intro _ _ h <;> cases h

/-- What the pass finds in a file is well formed, and holds the first declaration with each id. So
an index that is merged from any number of such findings, in any order and with files taken more
than once, has no problem. -/
theorem findings_wellFormed_merge_consistent :
    (∀ (s : Tree.Source) (root : Tree.Node),
      (Tree.findings s root).file = s.file ∧ (Tree.findings s root).WellFormed ∧
      ∀ d, d ∈ (Tree.findings s root).symbols ↔
        (Tree.declared s root).find? (fun t => t.id == d.id) = some d) ∧
    ∀ (base : String) (walked : List (Tree.Source × Tree.Node)),
      ((walked.map fun w => Tree.findings w.1 w.2).foldl Index.add { root := base }).problems =
        [] := by
  refine ⟨fun s root => ⟨rfl, Tree.wellFormed_findings s root,
    fun d => Tree.mem_symbols_findings_iff⟩, ?_⟩
  intro base walked
  apply problems_eq_nil_of_consistent
  apply (consistent_empty base).foldl_add
  intro f hf
  obtain ⟨w, -, rfl⟩ := List.mem_map.mp hf
  exact Tree.wellFormed_findings w.1 w.2

end Index

end CodeAtlas
