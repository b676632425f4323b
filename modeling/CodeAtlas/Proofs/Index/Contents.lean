import CodeAtlas.Proofs.Calls.Resolution
import CodeAtlas.Proofs.Consistency

/-!
# What a merged index holds

An index is merged from the findings of one file after another. Files and
declarations take the place of earlier ones, call sites and imports add up. So
whatever was merged before, and however often: the ids that a file lists are
declared, the call sites of a key are those of all findings in the order in which
they came, and a module lists the files that import it in the order of their first
imports.
-/

namespace CodeAtlas

/-- Whether a file imports a module. -/
def Findings.importsFrom (f : Findings) (source : String) : Bool :=
  f.imports.any fun i => i.source = source

theorem Findings.importsFrom_iff {f : Findings} {source : String} :
    f.importsFrom source = true ↔ source ∈ f.imports.map Import.source := by
  simp [importsFrom]

namespace ModuleEntry

theorem addImporter_eq (m : ModuleEntry) (file : String) :
    m.addImporter file = { m with
      importedBy := if file ∈ m.importedBy then m.importedBy else m.importedBy ++ [file] } := by
  simp only [addImporter, List.contains_iff_mem]
  split <;> rfl

theorem mem_importedBy_addImporter (m : ModuleEntry) (file : String) :
    file ∈ (m.addImporter file).importedBy := by
  rw [addImporter_eq]
  dsimp only
  split
  · assumption
  · simp

theorem addImporter_of_mem {m : ModuleEntry} {file : String} (h : file ∈ m.importedBy) :
    m.addImporter file = m :=
  if_pos (List.contains_iff_mem.mpr h)

end ModuleEntry

namespace Index

theorem merge_concat (base : String) (fs : List Findings) (f : Findings) :
    merge base (fs ++ [f]) = (merge base fs).add f :=
  List.foldl_append

/-- After the imports of one file, each module among them has the file as an importer, once, and all
others are as before. -/
theorem get?_foldl_addImport (file : String) (sources : List String) (t : Table ModuleEntry)
    (source : String) :
    (sources.foldl (addImport file) t).get? source =
      if source ∈ sources then some (((t.get? source).getD (.new source)).addImporter file)
      else t.get? source := by
  induction sources generalizing t with
  | nil => simp
  | cons first rest ih =>
    rw [List.foldl_cons, ih, addImport, Table.get?_insert]
    by_cases hfirst : source = first
    · -- an import of the same module further down adds nothing
      subst hfirst
      simp [ModuleEntry.addImporter_of_mem (ModuleEntry.mem_importedBy_addImporter _ _)]
    · simp [hfirst]

theorem get?_modules_add (x : Index) (f : Findings) (source : String) :
    (x.add f).modules.get? source =
      if f.importsFrom source then
        some (((x.modules.get? source).getD (.new source)).addImporter f.file)
      else x.modules.get? source := by
  simp only [Findings.importsFrom_iff]
  exact get?_foldl_addImport f.file (f.imports.map Import.source) x.modules source

/-- The files that import a module, each once, in the order of their first imports. -/
def importers (fs : List Findings) (source : String) : List String :=
  ((fs.filter fun f => f.importsFrom source).map Findings.file).eraseDups

theorem importers_concat (fs : List Findings) (f : Findings) (source : String) :
    importers (fs ++ [f]) source =
      if f.importsFrom source then
        if f.file ∈ importers fs source then importers fs source
        else importers fs source ++ [f.file]
      else importers fs source := by
  rw [importers, List.filter_append]
  by_cases himports : f.importsFrom source = true
  · have hkept : [f].filter (fun f => f.importsFrom source) = [f] :=
      List.filter_cons_of_pos himports
    rw [hkept, List.map_append, List.map_singleton, Order.eraseDups_concat, if_pos himports]
    simp only [importers, List.mem_eraseDups]
  · have hleft : [f].filter (fun f => f.importsFrom source) = [] := List.filter_cons_of_neg himports
    rw [hleft, List.append_nil, if_neg himports, importers]

theorem mem_importers_iff {fs : List Findings} {source file : String} :
    file ∈ importers fs source ↔ ∃ f ∈ fs, f.importsFrom source = true ∧ f.file = file := by
  simp [importers, and_assoc]

/-- A module is there if some file imports it, and lists its importers. -/
theorem get?_modules_merge (base : String) (fs : List Findings) (source : String) :
    (merge base fs).modules.get? source =
      if importers fs source = [] then none
      else some { ModuleEntry.new source with importedBy := importers fs source } := by
  induction fs using List.reverseRecOn with
  | nil => rfl
  | append_singleton fs f ih =>
    have hheld : ((merge base fs).modules.get? source).getD (.new source) =
        { ModuleEntry.new source with importedBy := importers fs source } := by
      rw [ih]
      split
      next hnone => rw [hnone]; rfl
      next => rfl
    rw [merge_concat, get?_modules_add, importers_concat]
    split
    next =>
      have hsome : (if f.file ∈ importers fs source then importers fs source
          else importers fs source ++ [f.file]) ≠ [] := by
        split
        next hmem => exact List.ne_nil_of_mem hmem
        next => simp
      rw [hheld, ModuleEntry.addImporter_eq, if_neg hsome]
    next => exact ih

theorem listsDeclared_merge (base : String) (fs : List Findings) :
    (merge base fs).ListsDeclared := by
  induction fs using List.reverseRecOn with
  | nil =>
    intro path entry h
    cases h
  | append_singleton fs f ih =>
    rw [merge_concat]
    exact ih.add f

/-- The call sites of some findings that name a callee by a key, in the order in which they came. -/
def sitesOf (fs : List Findings) (key : String) : List Reference :=
  (fs.flatMap Findings.references).filter fun r => r.key = key

theorem get?_references_merge (base : String) (fs : List Findings) (key : String) :
    (merge base fs).references.get? key =
      if (sitesOf fs key).isEmpty then none else some (sitesOf fs key) := by
  rw [merge, references_foldl_add]
  exact Table.get?_foldl_push Reference.key _ key

/-- Whatever findings are merged, in whatever order and however often: each id that a file lists
stands for a declaration with this id; under each key stand all call sites that have it, in the
order in which they came, and there is no key without any; and the modules are those that some file
imports, each with the files that import it, in the order of their first imports. -/
theorem merge_holds_findings (base : String) (fs : List Findings) :
    (∀ path entry, (merge base fs).files.get? path = some entry → ∀ id ∈ entry.symbols,
      ∃ s, (merge base fs).symbols.get? id = some s ∧ s.id = id) ∧
    (∀ key sites, (merge base fs).references.get? key = some sites ↔
      sites = sitesOf fs key ∧ sites ≠ []) ∧
    (∀ source, source ∈ (merge base fs).modules.keys ↔
      ∃ f ∈ fs, ∃ i ∈ f.imports, i.source = source) ∧
    ∀ source m, (merge base fs).modules.get? source = some m →
      m.importedBy = importers fs source ∧ m.importedBy.Nodup := by
  refine ⟨?_, ?_, ?_, ?_⟩
  · intro path entry hentry id hid
    obtain ⟨s, hs⟩ := listsDeclared_merge base fs path entry hentry id hid
    exact ⟨s, hs, keyedById_merge base fs id s hs⟩
  · intro key sites
    rw [get?_references_merge]
    split
    next hnone =>
      rw [List.isEmpty_iff] at hnone
      simp [hnone]
    next hsome =>
      rw [List.isEmpty_iff] at hsome
      rw [Option.some.injEq]
      exact ⟨fun h => ⟨h.symm, h ▸ hsome⟩, fun h => h.1.symm⟩
  · intro source
    rw [Table.mem_keys_iff, get?_modules_merge]
    have himported : importers fs source ≠ [] ↔ ∃ f ∈ fs, ∃ i ∈ f.imports, i.source = source := by
      rw [Ne, List.eq_nil_iff_forall_not_mem, not_forall_not]
      simp [mem_importers_iff, Findings.importsFrom]
    rw [← himported]
    split
    next hnone => simp [hnone]
    next hsome => simp [hsome]
  · intro source m hm
    rw [get?_modules_merge] at hm
    split at hm
    next => cases hm
    next =>
      obtain rfl := Option.some.inj hm
      exact ⟨rfl, Order.nodup_eraseDups _⟩

end Index

end CodeAtlas
