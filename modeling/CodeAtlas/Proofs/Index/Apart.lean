import CodeAtlas.Proofs.Calls.Edges
import CodeAtlas.Proofs.Ids
import Mathlib.Algebra.GroupWithZero.Nat

/-!
# Files keep apart

Ids hold the file that they are of. So findings of different files have no id in
common, and merging them, in whatever order, loses no declaration of one file to
another. All that is lost are declarations with the id of a later one in the same
file, which then have its name and line as well.
-/

namespace CodeAtlas

/-- The declarations are of the file, and have ids made of file, name and line. No name has a
colon. -/
structure Findings.Identified (f : Findings) : Prop where
  file : ∀ s ∈ f.symbols, s.file = f.file
  id : ∀ s ∈ f.symbols, s.id = symbolId f.file s.name s.line
  name : ∀ s ∈ f.symbols, ':' ∉ s.name.toList

namespace Findings.Identified

variable {f g : Findings} {s t : Symbol}

/-- Declarations with the same id are of the same file and have the same name and line. -/
theorem eq_of_id_eq (hf : f.Identified) (hg : g.Identified) (hs : s ∈ f.symbols)
    (ht : t ∈ g.symbols) (hid : s.id = t.id) :
    f.file = g.file ∧ s.name = t.name ∧ s.line = t.line := by
  rw [hf.id s hs, hg.id t ht] at hid
  exact (symbolId_inj (hf.name s hs) (hg.name t ht)).mp hid

theorem apart (hf : f.Identified) (hg : g.Identified) (hfile : f.file ≠ g.file) :
    Index.Apart f g :=
  fun _ hs _ ht hid => hfile (hf.eq_of_id_eq hg hs ht hid).1

end Findings.Identified

namespace Index

/-- How many ids the declarations of a file have. -/
def idCount (f : Findings) : Nat := (f.symbols.map Symbol.id).eraseDups.length

/-- With ids apart, a merged index has as many declarations as its files have ids. -/
theorem size_symbols_merge (base : String) {fs : List Findings} (h : fs.Pairwise Apart) :
    (merge base fs).symbols.size = (fs.map idCount).sum := by
  have hkeys : (merge base fs).symbols.keys =
      ((fs.flatMap Findings.symbols).map Symbol.id).eraseDups := by
    rw [merge, symbols_foldl_add]
    exact (Table.keys_insertAll_empty _).trans (by rw [List.map_map]; rfl)
  have hsize : (merge base fs).symbols.size = (merge base fs).symbols.keys.length := by
    simp [Table.size, Table.keys]
  rw [hsize, hkeys]
  clear hsize hkeys
  induction fs with
  | nil => rfl
  | cons f fs ih =>
    obtain ⟨hf, hfs⟩ := List.pairwise_cons.mp h
    have hnew : ∀ id ∈ (fs.flatMap Findings.symbols).map Symbol.id,
        id ∉ f.symbols.map Symbol.id := by
      simp only [List.mem_map, List.mem_flatMap]
      rintro id ⟨t, ⟨g, hg, ht⟩, rfl⟩ ⟨s, hs, hid⟩
      exact hf g hg s hs t ht hid
    rw [List.flatMap_cons, List.map_append, Order.eraseDups_append_of_not_mem hnew,
      List.length_append, ih hfs, List.map_cons, List.sum_cons, idCount]

/-- With ids apart, an id of a file stands for a declaration of this file. -/
theorem exists_get?_symbols_merge (base : String) {fs : List Findings} (h : fs.Pairwise Apart)
    {f : Findings} (hf : f ∈ fs) {s : Symbol} (hs : s ∈ f.symbols) :
    ∃ t ∈ f.symbols, (merge base fs).symbols.get? s.id = some t ∧ t.id = s.id := by
  obtain ⟨t, hlookup⟩ := Table.exists_lookup_of_mem
    (List.mem_map.mpr ⟨s, hs, rfl⟩ : (s.id, s) ∈ f.symbols.map fun s => (s.id, s))
  obtain ⟨ht, hid⟩ := mem_and_id_of_lookup hlookup
  exact ⟨t, ht, (get?_symbols_merge_iff h).mpr ⟨f, hf, hlookup⟩, hid⟩

/-- Findings of different files, with ids made of file, name and line, can be merged in any order
without a declaration of one file taking the place of one of another: each id still stands for a
declaration of its file with its name and line, and there are as many declarations as the files have
ids. -/
theorem merge_keeps_files_apart (base : String) {fs : List Findings}
    (hfiles : (fs.map Findings.file).Nodup) (hids : ∀ f ∈ fs, f.Identified) {gs : List Findings}
    (hperm : gs.Perm fs) :
    (∀ f ∈ fs, ∀ s ∈ f.symbols, ∃ t ∈ f.symbols, (merge base gs).symbols.get? s.id = some t ∧
      t.file = s.file ∧ t.name = s.name ∧ t.line = s.line) ∧
    (merge base gs).symbols.size = (fs.map idCount).sum := by
  have hapart : fs.Pairwise Apart := by
    refine (List.pairwise_map.mp hfiles).imp_of_mem ?_
    intro f g hf hg hne
    exact (hids f hf).apart (hids g hg) hne
  have hapart' : gs.Pairwise Apart := (hperm.pairwise_iff fun h => Apart.symm h).mpr hapart
  constructor
  · intro f hf s hs
    obtain ⟨t, ht, hget, hid⟩ :=
      exists_get?_symbols_merge base hapart' (hperm.mem_iff.mpr hf) hs
    obtain ⟨-, hname, hline⟩ := (hids f hf).eq_of_id_eq (hids f hf) ht hs hid
    exact ⟨t, ht, hget, ((hids f hf).file t ht).trans ((hids f hf).file s hs).symm, hname, hline⟩
  · rw [size_symbols_merge base hapart', (hperm.map idCount).sum_nat]

/-- A function of a file. -/
def functionIn (file name : String) (line : Int) (signature : String) : Symbol :=
  ⟨symbolId file name line, name, .function, file, line, line, false, signature, none⟩

/-- A file that declares a function twice on one line. -/
def twiceOnOneLine : Findings where
  file := "a"
  language := "javascript"
  symbols := [functionIn "a" "b" 1 "first", functionIn "a" "b" 1 "second"]

/-- A file whose name looks like an id of the other one. -/
def namedLikeAnId : Findings where
  file := "a:b:1"
  language := "javascript"
  symbols := [functionIn "a:b:1" "b" 1 "", functionIn "a:b:1" "b" (-1) ""]

theorem merge_keeps_namedLikeAnId_apart :
    ([twiceOnOneLine, namedLikeAnId].map Findings.file).Nodup ∧
    (∀ f ∈ [twiceOnOneLine, namedLikeAnId], f.Identified) ∧
    [namedLikeAnId, twiceOnOneLine].Perm [twiceOnOneLine, namedLikeAnId] ∧
    (merge "" [namedLikeAnId, twiceOnOneLine]).symbols.size = 1 + 2 := by
  have hfiles : ([twiceOnOneLine, namedLikeAnId].map Findings.file).Nodup := by decide
  have hids : ∀ f ∈ [twiceOnOneLine, namedLikeAnId], f.Identified := by
    rw [List.forall_mem_cons, List.forall_mem_singleton]
    constructor <;> constructor <;> decide +kernel
  have hperm : [namedLikeAnId, twiceOnOneLine].Perm [twiceOnOneLine, namedLikeAnId] :=
    .swap _ _ _
  have hcount : ([twiceOnOneLine, namedLikeAnId].map idCount).sum = 1 + 2 := by decide +kernel
  exact ⟨hfiles, hids, hperm, (merge_keeps_files_apart "" hfiles hids hperm).2.trans hcount⟩

end Index

end CodeAtlas
