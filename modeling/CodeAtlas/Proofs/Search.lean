import CodeAtlas.FileTree
import CodeAtlas.Proofs.Order
import CodeAtlas.Proofs.Outcome
import Mathlib.Data.List.Nodup

/-!
# Searching for files

A search lists what is in a directory and goes on into the directories among it. It
passes over directories that may not be read. A directory that cannot be listed for
another reason ends it, and so does anything it has come by that cannot be looked at.
A search that nothing ends finds the wanted files among what it came by, all of them
and each once.
-/

namespace CodeAtlas

namespace Path

theorem relativeTo?_eq_some_iff {p dir r : Path} :
    p.relativeTo? dir = some r ↔
      p.lead = dir.lead ∧ r.lead = "" ∧ dir.parts ++ r.parts = p.parts := by
  obtain ⟨lead, parts⟩ := r
  unfold relativeTo?
  by_cases hlead : p.lead = dir.lead
  · simp only [hlead, BEq.rfl, if_true, Option.map_eq_some_iff,
      List.isPrefixOf?_eq_some_iff_append_eq, Path.mk.injEq, true_and]
    constructor
    · rintro ⟨rest, hrest, rfl, rfl⟩
      exact ⟨rfl, hrest⟩
    · rintro ⟨rfl, hrest⟩
      exact ⟨parts, hrest, rfl, rfl⟩
  · simp [hlead]

theorem join_of_lead {p : Path} (h : p.lead = "") (dir : Path) :
    dir.join p = ⟨dir.lead, dir.parts ++ p.parts⟩ := by
  simp [join, isAbsolute, h]

theorem relativeTo?_join {p : Path} (h : p.lead = "") (dir : Path) :
    (dir.join p).relativeTo? dir = some p := by
  rw [relativeTo?_eq_some_iff, join_of_lead h]
  exact ⟨rfl, h, rfl⟩

theorem join_of_relativeTo? {p dir r : Path} (h : p.relativeTo? dir = some r) : dir.join r = p := by
  obtain ⟨hlead, hr, hparts⟩ := relativeTo?_eq_some_iff.mp h
  rw [join_of_lead hr, ← hlead, hparts]

end Path

namespace FileTree

section

variable {α : Type} {test : α → Except Fault Bool} {l kept : List α} {a : α}

theorem select_cons (test : α → Except Fault Bool) (a : α) (l : List α) :
    select test (a :: l) = (test a).bind fun passes =>
      (select test l).map fun kept => if passes then a :: kept else kept := by
  rw [select]
  cases test a <;> rfl

theorem select_cons_eq_ok_iff :
    select test (a :: l) = .ok kept ↔ ∃ passes rest, test a = .ok passes ∧
      select test l = .ok rest ∧ (if passes then a :: rest else rest) = kept := by
  rw [select_cons]
  cases test a with
  | error f => simp [Except.bind]
  | ok passes => simp [Except.bind, map_eq_ok_iff]

theorem sublist_of_select (h : select test l = .ok kept) : kept.Sublist l := by
  induction l generalizing kept with
  | nil =>
    cases h
    exact .slnil
  | cons a l ih =>
    obtain ⟨passes, rest, -, hrest, rfl⟩ := select_cons_eq_ok_iff.mp h
    cases passes with
    | true => exact (ih hrest).cons_cons a
    | false => exact (ih hrest).cons a

theorem mem_select_iff (h : select test l = .ok kept) :
    a ∈ kept ↔ a ∈ l ∧ test a = .ok true := by
  induction l generalizing kept with
  | nil =>
    cases h
    simp
  | cons b l ih =>
    obtain ⟨passes, rest, htest, hrest, rfl⟩ := select_cons_eq_ok_iff.mp h
    by_cases hab : a = b
    · subst hab
      cases passes with
      | true => simp [htest]
      | false => simp [htest, ih hrest]
    · cases passes <;> simp [hab, ih hrest]

theorem exists_select_eq_error_iff :
    (∃ f, select test l = .error f) ↔ ∃ a ∈ l, ∃ f, test a = .error f := by
  induction l with
  | nil =>
    refine iff_of_false ?_ (by simp)
    rintro ⟨f, h⟩
    cases h
  | cons a l ih =>
    simp only [List.mem_cons, exists_eq_or_imp, ← ih, select_cons]
    cases test a with
    | error f => simp [Except.bind]
    | ok passes => cases select test l <;> simp [Except.bind, Except.map]

theorem ne_error_of_select (h : select test l = .ok kept) (ha : a ∈ l) (f : Fault) :
    test a ≠ .error f := by
  intro hf
  obtain ⟨f, hselect⟩ := exists_select_eq_error_iff.mpr ⟨a, ha, f, hf⟩
  cases h.symm.trans hselect

end

variable {t : FileTree} {root path : Path} {languages : List Language} {paths : List Path}

theorem lead_of_mem_within (h : path ∈ t.within root) : path.lead = "" := by
  rw [within, List.mem_eraseDups, List.mem_cons, List.mem_flatMap] at h
  rcases h with rfl | ⟨p, -, h⟩
  · rfl
  · obtain ⟨n, -, rfl⟩ := List.mem_map.mp h
    rfl

/-- A search that nothing ends: what it comes by, and the files among that. -/
structure Searches (t : FileTree) (root : Path) (listed files : List Path) : Prop where
  directory : t.isAt root t.isDirectory = .ok true
  comesBy : select (fun p => t.comesBy root p.parts) (t.within root) = .ok listed
  looksAt : select (fun p => t.isAt (root.join p) t.isFile)
    (listed.mergeSort fun p q => Path.partsLe p.parts q.parts) = .ok files

theorem discover_eq_ok (h : t.discover root languages = .ok paths) :
    (t.isAt root t.isDirectory = .ok false ∧ paths = []) ∨
    ∃ listed files, t.Searches root listed files ∧
      paths = (files.filter (isWanted languages)).map root.join := by
  obtain ⟨isDirectory, hroot, h⟩ := bind_eq_ok_iff.mp h
  cases isDirectory with
  | false => exact .inl ⟨hroot, (Except.ok.inj h).symm⟩
  | true =>
    obtain ⟨listed, hlisted, h⟩ := bind_eq_ok_iff.mp h
    obtain ⟨files, hfiles, h⟩ := bind_eq_ok_iff.mp h
    exact .inr ⟨listed, files, ⟨hroot, hlisted, hfiles⟩, (Except.ok.inj h).symm⟩

/-- What is found where the directories list everything in order. -/
theorem discover_of_sorted (listed files : List Path)
    (hroot : t.isAt root t.isDirectory = .ok true)
    (hlisted : select (fun p => t.comesBy root p.parts) (t.within root) = .ok listed)
    (hsorted : listed.Pairwise fun p q => Path.partsLe p.parts q.parts = true)
    (hfiles : select (fun p => t.isAt (root.join p) t.isFile) listed = .ok files)
    (hpaths : (files.filter (isWanted languages)).map root.join = paths) :
    t.discover root languages = .ok paths := by
  rw [discover, hroot, hlisted, ← hpaths]
  simp only [bind, Except.bind, if_true, List.mergeSort_of_pairwise hsorted, hfiles]

/-- Something that a search comes by cannot be looked at, or cannot be gone into though it may be
read. -/
inductive Obstructed (t : FileTree) (root : Path) : Prop
  | root {f : Fault} (h : t.isAt root t.isDirectory = .error f)
  | directory {path : Path} {f : Fault} (hroot : t.isAt root t.isDirectory = .ok true)
    (hpath : path ∈ t.within root) (h : t.comesBy root path.parts = .error f)
  | entry {path : Path} {f : Fault} (hroot : t.isAt root t.isDirectory = .ok true)
    (hpath : path ∈ t.within root) (hcomes : t.comesBy root path.parts = .ok true)
    (h : t.isAt (root.join path) t.isFile = .error f)

/-- Which languages are searched for makes no difference to whether a search ends. -/
theorem exists_discover_eq_error_iff :
    (∃ f, t.discover root languages = .error f) ↔ t.Obstructed root := by
  constructor
  · rintro ⟨f, h⟩
    rcases bind_eq_error_iff.mp h with hroot | ⟨isDirectory, hroot, h⟩
    · exact .root hroot
    cases isDirectory with
    | false => cases h
    | true =>
      rcases bind_eq_error_iff.mp h with hlisted | ⟨listed, hlisted, h⟩
      · obtain ⟨p, hp, f, hf⟩ := exists_select_eq_error_iff.mp ⟨f, hlisted⟩
        exact .directory hroot hp hf
      rcases bind_eq_error_iff.mp h with hfiles | ⟨files, -, h⟩
      · obtain ⟨p, hp, f, hf⟩ := exists_select_eq_error_iff.mp ⟨f, hfiles⟩
        obtain ⟨hwithin, hcomes⟩ := (mem_select_iff hlisted).mp (List.mem_mergeSort.mp hp)
        exact .entry hroot hwithin hcomes hf
      · cases h
  · intro h
    -- A search with a result would have looked at what obstructs it.
    cases hpaths : t.discover root languages with
    | error f => exact ⟨f, rfl⟩
    | ok paths =>
      exfalso
      rcases discover_eq_ok hpaths with ⟨hnone, -⟩ | ⟨listed, files, hsearches, -⟩
      · cases h with
        | root hroot | directory hroot | entry hroot => cases hnone.symm.trans hroot
      · cases h with
        | root hroot => cases hsearches.directory.symm.trans hroot
        | directory _ hpath hf => exact ne_error_of_select hsearches.comesBy hpath _ hf
        | entry _ hpath hcomes hf =>
          have hmem := (mem_select_iff hsearches.comesBy).mpr ⟨hpath, hcomes⟩
          exact ne_error_of_select hsearches.looksAt (List.mem_mergeSort.mpr hmem) _ hf

theorem not_obstructed_of_discover (h : t.discover root languages = .ok paths) :
    ¬t.Obstructed root := by
  intro hobstructed
  obtain ⟨f, hf⟩ := exists_discover_eq_error_iff.mpr hobstructed
  cases h.symm.trans hf

theorem mem_of_file? {parts : List String} {f : SourceFile} (h : t.file? parts = some f) :
    f ∈ t.files ∧ f.path.parts = parts := by
  have hfound := List.find?_some h
  exact ⟨List.mem_reverse.mp (List.mem_of_find?_eq_some h), by simpa using hfound⟩

theorem isAt_eq_true {kind : List String → Bool} (h : t.isAt path kind = .ok true) :
    kind path.parts = true := by
  unfold isAt at h
  split at h
  · exact Except.ok.inj h
  all_goals cases h

theorem Searches.mem_files_iff {listed files : List Path} (h : t.Searches root listed files) :
    path ∈ files ↔ path ∈ t.within root ∧ t.comesBy root path.parts = .ok true ∧
      t.isAt (root.join path) t.isFile = .ok true := by
  rw [mem_select_iff h.looksAt, List.mem_mergeSort, mem_select_iff h.comesBy, and_assoc]

theorem Searches.nodup_files {listed files : List Path} (h : t.Searches root listed files) :
    files.Nodup :=
  have hlisted : listed.Nodup := (Order.nodup_eraseDups _).sublist (sublist_of_select h.comesBy)
  ((List.mergeSort_perm _ _).nodup_iff.mpr hlisted).sublist (sublist_of_select h.looksAt)

/-- What is found is a file, and wanted by its path from the directory on. -/
theorem mem_discover (hpaths : t.discover root languages = .ok paths) (h : path ∈ paths) :
    (∃ f ∈ t.files, f.path.parts = path.parts) ∧
    ∃ relative, path.relativeTo? root = some relative ∧ isWanted languages relative = true := by
  rcases discover_eq_ok hpaths with ⟨-, rfl⟩ | ⟨listed, files, hsearches, rfl⟩
  · cases h
  · obtain ⟨relative, hmem, rfl⟩ := List.mem_map.mp h
    obtain ⟨hfile, hwanted⟩ := List.mem_filter.mp hmem
    obtain ⟨hwithin, -, hat⟩ := hsearches.mem_files_iff.mp hfile
    refine ⟨?_, relative, Path.relativeTo?_join (lead_of_mem_within hwithin) root, hwanted⟩
    obtain ⟨f, hf⟩ := Option.isSome_iff_exists.mp (isAt_eq_true hat)
    exact ⟨f, mem_of_file? hf⟩

theorem nodup_discover (hpaths : t.discover root languages = .ok paths) : paths.Nodup := by
  rcases discover_eq_ok hpaths with ⟨-, rfl⟩ | ⟨listed, files, hsearches, rfl⟩
  · exact List.nodup_nil
  · refine List.Nodup.map_on ?_ (hsearches.nodup_files.filter _)
    intro p hp q hq hpq
    have hlead : ∀ r ∈ files.filter (isWanted languages), r.lead = "" := fun r hr =>
      lead_of_mem_within (hsearches.mem_files_iff.mp (List.mem_of_mem_filter hr)).1
    have hrelative := Path.relativeTo?_join (hlead p hp) root
    rw [hpq, Path.relativeTo?_join (hlead q hq) root] at hrelative
    exact (Option.some.inj hrelative).symm

end FileTree

end CodeAtlas
