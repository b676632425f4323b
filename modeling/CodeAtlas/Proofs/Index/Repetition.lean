import CodeAtlas.Proofs.Calls.Edges
import CodeAtlas.Proofs.Index.Contents

/-!
# Merging the same findings again

Findings that are merged a second time take their own place: files, declarations
and modules stay as they are. Only the call sites are there twice. The call graph
takes call sites by file and line, and on one line by the first use of what they
name, with a stable sort; so each repetition comes behind the call site that it
repeats and calls nothing new. The order in which callers and callees are listed
stays the same.
-/

namespace CodeAtlas.Index

theorem files_add_add (x : Index) (f : Findings) : ((x.add f).add f).files = (x.add f).files := by
  refine Table.insert_of_get?_eq ?_
  exact (Table.get?_insert _ _ _ _).trans (if_pos rfl)

theorem symbols_add_add (x : Index) (f : Findings) :
    ((x.add f).add f).symbols = (x.add f).symbols :=
  Table.insertAll_insertAll _ _

/-- Imports of a file that is an importer already change nothing. -/
theorem foldl_addImport_of_mem {file : String} {sources : List String} {t : Table ModuleEntry}
    (h : ∀ source ∈ sources, ∃ m, t.get? source = some m ∧ file ∈ m.importedBy) :
    sources.foldl (addImport file) t = t := by
  induction sources with
  | nil => rfl
  | cons source rest ih =>
    obtain ⟨m, hm, hfile⟩ := h source List.mem_cons_self
    have hstep : addImport file t source = t := by
      rw [addImport, hm, Option.getD_some, ModuleEntry.addImporter_of_mem hfile]
      exact Table.insert_of_get?_eq hm
    rw [List.foldl_cons, hstep]
    exact ih fun source' hmem => h source' (List.mem_cons_of_mem _ hmem)

theorem modules_add_add (x : Index) (f : Findings) :
    ((x.add f).add f).modules = (x.add f).modules := by
  refine foldl_addImport_of_mem ?_
  intro source hsource
  rw [get?_modules_add, if_pos (Findings.importsFrom_iff.mpr hsource)]
  exact ⟨_, rfl, ModuleEntry.mem_importedBy_addImporter _ _⟩

theorem sorts_siteLe : Order.Sorts siteLe where
  trans a b c hab hbc := by
    unfold siteLe at *
    grind [String.le_trans, String.le_antisymm]
  total a b := by
    unfold siteLe
    have hfile := String.le_total a.file b.file
    grind

/-- Each call site is taken where it comes first, by file and line and by the first use of what it
names. -/
theorem eraseDups_sites_merge (base : String) (fs : List Findings) :
    (merge base fs).sites.eraseDups =
      ((fs.flatMap Findings.references).eraseDups.mergeSort
        (Table.firstLe Reference.key (fs.flatMap Findings.references))).mergeSort siteLe := by
  rw [sites, sorts_siteLe.eraseDups_mergeSort, allReferences_merge,
    (Table.sorts_firstLe _ _).eraseDups_mergeSort]

/-- Call sites that are there already do not change what is used first. -/
theorem firstLe_append {refs : List Reference} (more : List Reference) {a b : Reference}
    (ha : a ∈ refs) (hb : b ∈ refs) :
    Table.firstLe Reference.key (refs ++ more) a b = Table.firstLe Reference.key refs a b := by
  simp only [Table.firstLe, List.map_append]
  rw [List.idxOf_append_of_mem (List.mem_map_of_mem ha),
    List.idxOf_append_of_mem (List.mem_map_of_mem hb)]

theorem eraseDups_sites_add_add (base : String) (fs : List Findings) (f : Findings) :
    (((merge base fs).add f).add f).sites.eraseDups = ((merge base fs).add f).sites.eraseDups := by
  let refs := (fs ++ [f]).flatMap Findings.references
  have hmore : ∀ r ∈ f.references, r ∈ refs := by
    intro r hr
    simp [refs, hr]
  have hrefs : (fs ++ [f] ++ [f]).flatMap Findings.references = refs ++ f.references := by
    simp [refs]
  rw [← merge_concat, ← merge_concat, eraseDups_sites_merge, eraseDups_sites_merge, hrefs,
    Order.eraseDups_append_of_mem hmore]
  congr 1
  apply Order.mergeSort_congr
  intro a ha b hb
  exact firstLe_append f.references (List.mem_eraseDups.mp ha) (List.mem_eraseDups.mp hb)

/-- The call graph depends on its call sites, each taken once, and on the declarations. -/
theorem callGraph_eq_foldl (x : Index) :
    x.callGraph = (x.sites.eraseDups.flatMap (x.callsOf (.ofIndex x))).foldl
      (fun g call => g.pushNew call.1 call.2) ∅ := by
  rw [← Table.foldl_pushNew_eraseDups (x.sites.eraseDups.flatMap _),
    Order.eraseDups_flatMap_eraseDups, Table.foldl_pushNew_eraseDups]
  rfl

theorem callsOf_congr {x y : Index} (h : x.symbols = y.symbols) :
    x.callsOf (.ofIndex x) = y.callsOf (.ofIndex y) := by
  funext ref
  simp only [callsOf, Resolver.ofIndex, Resolver.ordered, h]

theorem callGraph_congr {x y : Index} (hsymbols : x.symbols = y.symbols)
    (hsites : x.sites.eraseDups = y.sites.eraseDups) : x.callGraph = y.callGraph := by
  rw [callGraph_eq_foldl, callGraph_eq_foldl, hsites, callsOf_congr hsymbols]

/-- Merging the findings of one file a second time, whatever has been merged before, changes neither
files nor declarations nor modules, and neither of the graphs, though the call sites are there
twice. -/
theorem add_again_changes_no_graph (base : String) (fs : List Findings) (f : Findings) :
    (((merge base fs).add f).add f).files = ((merge base fs).add f).files ∧
    (((merge base fs).add f).add f).symbols = ((merge base fs).add f).symbols ∧
    (((merge base fs).add f).add f).modules = ((merge base fs).add f).modules ∧
    (((merge base fs).add f).add f).callGraph = ((merge base fs).add f).callGraph ∧
    (((merge base fs).add f).add f).importGraph = ((merge base fs).add f).importGraph ∧
    ∀ key, ((((merge base fs).add f).add f).references.get? key).getD [] =
      (((merge base fs).add f).references.get? key).getD [] ++
        f.references.filter fun r => r.key = key := by
  have hfiles := files_add_add (merge base fs) f
  have hsymbols := symbols_add_add (merge base fs) f
  refine ⟨hfiles, hsymbols, modules_add_add _ f, ?_, ?_, ?_⟩
  · exact callGraph_congr hsymbols (eraseDups_sites_add_add base fs f)
  · rw [importGraph, importGraph, hfiles]
  · intro key
    exact Table.getD_foldl_push Reference.key f.references _ key

end CodeAtlas.Index
