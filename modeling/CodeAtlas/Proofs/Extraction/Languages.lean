import CodeAtlas.Proofs.Extraction.Runs
import CodeAtlas.Proofs.Order
import CodeAtlas.Proofs.Text

/-!
# The languages of a run

A run is asked for languages by name, and reads the names twice: for the
languages that they stand for, and again for the names of those. The second
reading changes nothing, unless the first has left nothing. So a run in whose
request some name is known reads all files of the languages asked for and no
others. A request without a known name asks for nothing, and then a run reads the
files of every language.
-/

namespace CodeAtlas

namespace Language

theorem mem_all (l : Language) : l ∈ all := by
  cases l <;> decide

/-- No suffix belongs to two languages. -/
theorem eq_of_contains_suffixes {l l' : Language} {suffix : String}
    (h : l.suffixes.contains suffix = true) (h' : l'.suffixes.contains suffix = true) : l = l' := by
  have hdisjoint : ∀ a ∈ all, ∀ b ∈ all, ∀ s ∈ a.suffixes, s ∈ b.suffixes → a = b := by decide
  rw [List.contains_iff_mem] at h h'
  exact hdisjoint l l.mem_all l' l'.mem_all suffix h h'

theorem ofPath_eq_some_iff {path : Path} {l : Language} :
    ofPath path = some l ↔ l.suffixes.contains path.suffix = true := by
  have hfound : ∀ l', ofPath path = some l' → l'.suffixes.contains path.suffix = true :=
    fun l' h => List.find?_some (p := fun l : Language => l.suffixes.contains path.suffix) h
  constructor
  · exact hfound l
  · intro h
    obtain ⟨l', hl'⟩ := exists_ofPath h
    rw [hl', eq_of_contains_suffixes (hfound l' hl') h]

theorem ofPath_congr {p q : Path} (h : p.suffix = q.suffix) : ofPath p = ofPath q := by
  rw [ofPath, ofPath, h]

/-- What a known name stands for holds its own alias already. -/
theorem flatMap_requested_name (name : String) :
    ∃ more, (requested name).flatMap (fun l => requested l.name) = requested name ++ more ∧
      ∀ l ∈ more, l ∈ requested name := by
  unfold requested
  split
  case h_2 => exact ⟨[tsx], by decide, by decide⟩
  all_goals exact ⟨[], by decide, by decide⟩

theorem eraseDups_flatMap_requested_name (names : List String) :
    ((names.flatMap requested).flatMap fun l => requested l.name).eraseDups =
      (names.flatMap requested).eraseDups := by
  induction names using List.reverseRecOn with
  | nil => rfl
  | append_singleton names name ih =>
    obtain ⟨more, hmore, hold⟩ := flatMap_requested_name name
    rw [List.flatMap_append, List.flatMap_append, List.flatMap_singleton, hmore,
      Order.eraseDups_append_congr ih, ← List.append_assoc]
    apply Order.eraseDups_append_of_mem
    intro l hl
    exact List.mem_append_right _ (hold l hl)

theorem expand_of_ne_nil {names : List String} (h : names ≠ []) :
    expand names = (names.flatMap requested).eraseDups := by
  rw [expand, if_neg (by simpa using h)]

/-- A request that has been read once can be read again: only when nothing is left it grows. -/
theorem expand_map_name_expand {names : List String} (h : names ≠ []) :
    expand ((expand names).map name) =
      if (expand names).isEmpty then all else expand names := by
  rw [expand, List.isEmpty_map, List.flatMap_map, expand_of_ne_nil h]
  split
  · rfl
  · exact (Order.eraseDups_flatMap_eraseDups _ _).trans (eraseDups_flatMap_requested_name names)

theorem mem_expand_iff {names : List String} (h : names ≠ []) {l : Language} :
    l ∈ expand names ↔ ∃ name ∈ names, l ∈ requested name := by
  rw [expand_of_ne_nil h, List.mem_eraseDups, List.mem_flatMap]

theorem expand_eq_nil_iff {names : List String} (h : names ≠ []) :
    expand names = [] ↔ ∀ name ∈ names, requested name = [] := by
  simp only [List.eq_nil_iff_forall_not_mem, mem_expand_iff h, not_exists, not_and]
  exact ⟨fun hnone name hname l => hnone l name hname, fun hnone l name hname => hnone name hname l⟩

end Language

theorem Text.pieces_eq_splitOn (sep : Char) (cs : List Char) : pieces sep cs = cs.splitOn sep := by
  induction cs with
  | nil => rfl
  | cons c cs ih =>
    rw [List.splitOn, List.splitOnP_cons_eq_if_modifyHead, ← List.splitOn, ← ih, pieces]
    by_cases hc : c = sep
    · simp [hc]
    · cases hp : pieces sep cs with
      | nil => exact absurd hp (pieces_ne_nil sep cs)
      | cons p ps => simp [hc]

/-- The name of a file tells its suffix. -/
theorem Path.suffix_ofText_text {r : Path} (hlead : r.lead = "")
    (hslash : ∀ part ∈ r.parts, '/' ∉ part.toList) (hsuffix : r.suffix ≠ "") :
    (ofText r.text).suffix = r.suffix := by
  rcases List.eq_nil_or_concat r.parts with hnil | ⟨before, last, hparts⟩
  · exact absurd (by rw [suffix, name, hnil]; rfl) hsuffix
  have hname : r.name = last := by simp [name, hparts]
  have hkept : (last != "" && last != ".") = true := by
    by_contra hdropped
    rcases (show last = "" ∨ last = "." by grind) with rfl | rfl
    · exact hsuffix (by rw [suffix, hname]; rfl)
    · exact hsuffix (by rw [suffix, hname]; rfl)
  have hread : partsOf r.text.toList = r.parts.filter fun p => p != "" && p != "." := by
    rw [partsOf, Text.pieces_eq_splitOn, splitOn_text hlead (by simp [hparts]) hslash]
    simp
  have hback : (ofText r.text).name = last := by
    simp [name, ofText, hread, hparts, List.filter_append, hkept]
  rw [suffix, suffix, hback, hname]

namespace FileTree

/-- A file below a directory that a search comes by, outside of what holds nothing of a project's
own. -/
structure Offers (t : FileTree) (root path : Path) : Prop where
  file : ∃ f ∈ t.files, f.path = path
  reached : ∃ parts, t.place path = .ok parts
  below : ∃ relative, path.relativeTo? root = some relative ∧ relative.parts ≠ [] ∧
    t.comesBy root relative.parts = .ok true ∧ ∀ part ∈ relative.parts, part ∉ skippedNames

theorem isWanted_iff {languages : List Language} {path root relative : Path}
    (h : path.relativeTo? root = some relative) :
    isWanted languages relative = true ↔
      (relative.parts ≠ [] ∧ ∀ part ∈ relative.parts, part ∉ skippedNames) ∧
        ∃ l ∈ languages, Language.ofPath path = some l := by
  have hparts : isWanted languages relative = true → relative.parts ≠ [] :=
    parts_ne_nil_of_isWanted
  by_cases hne : relative.parts = []
  · simp only [hne, ne_eq, not_true_eq_false, imp_false, false_and, iff_false] at hparts ⊢
    exact hparts
  · simp only [Language.ofPath_eq_some_iff, Path.suffix_of_relativeTo? h hne]
    simp [isWanted, hne, and_comm]

theorem mem_within {t : FileTree} {f : SourceFile} (hf : f ∈ t.files) {root relative : Path}
    (h : f.path.relativeTo? root = some relative) (hne : relative.parts ≠ []) :
    relative ∈ t.within root := by
  obtain ⟨-, hlead, -⟩ := Path.relativeTo?_eq_some_iff.mp h
  have hrelative : (⟨"", relative.parts.take (relative.parts.length - 1 + 1)⟩ : Path) =
      relative := by
    rw [Nat.sub_add_cancel (List.length_pos_iff.mpr hne), List.take_length, ← hlead]
  rw [within, List.mem_eraseDups, List.mem_cons, List.mem_flatMap]
  refine .inr ⟨relative, List.mem_filterMap.mpr ⟨f.path, ?_, h⟩, ?_⟩
  · exact List.mem_append_left _ (List.mem_map_of_mem hf)
  · exact List.mem_map.mpr ⟨_, List.mem_range.mpr (Nat.sub_one_lt (by simpa using hne)), hrelative⟩

variable {t : FileTree} {root path : Path} {languages : List Language} {paths : List Path}

theorem Offers.isAt (h : t.Offers root path) : t.isAt path t.isFile = .ok true := by
  obtain ⟨f, hf, rfl⟩ := h.file
  obtain ⟨parts, hparts⟩ := h.reached
  rw [FileTree.isAt, hparts]
  refine congrArg _ (List.find?_isSome.mpr ⟨f, List.mem_reverse.mpr hf, ?_⟩)
  simp

theorem place_of_enters (h : t.enters root = .ok true) : ∃ parts, t.place root = .ok parts := by
  unfold enters at h
  split at h
  · cases h
  · cases h
  next parts hparts => exact ⟨parts, hparts⟩

/-- There is a directory above what a search comes by. -/
theorem Offers.isAt_root (h : t.Offers root path) : t.isAt root t.isDirectory = .ok true := by
  obtain ⟨f, hf, rfl⟩ := h.file
  obtain ⟨relative, hrelative, hne, hcomes, -⟩ := h.below
  obtain ⟨-, -, hparts⟩ := Path.relativeTo?_eq_some_iff.mp hrelative
  have henters : t.enters root = .ok true := by
    obtain ⟨part, rest, hcons⟩ := List.exists_cons_of_ne_nil hne
    rw [hcons, comesBy] at hcomes
    split at hcomes
    · assumption
    · exact hcomes
  obtain ⟨parts, hplace⟩ := place_of_enters henters
  have hdirectory : t.isDirectory root.parts = true := by
    have hany : (t.files.any fun f =>
        root.parts.isPrefixOf f.path.parts && root.parts != f.path.parts) = true := by
      refine List.any_eq_true.mpr ⟨f, hf, ?_⟩
      rw [← hparts]
      simpa using hne
    rw [isDirectory, hany, Bool.or_true, Bool.true_or]
  rw [FileTree.isAt, hplace]
  exact congrArg _ hdirectory

/-- A search that nothing ends finds every file of a language that is on offer. -/
theorem Offers.mem_discover (h : t.Offers root path)
    (hpaths : t.discover root languages = .ok paths) {l : Language} (hl : l ∈ languages)
    (hlanguage : Language.ofPath path = some l) : path ∈ paths := by
  obtain ⟨f, hf, rfl⟩ := h.file
  obtain ⟨relative, hrelative, hne, hcomes, hskipped⟩ := h.below
  rcases discover_eq_ok hpaths with ⟨hnone, -⟩ | ⟨listed, files, hsearches, rfl⟩
  · cases hnone.symm.trans h.isAt_root
  · rw [List.mem_map]
    refine ⟨relative, List.mem_filter.mpr ⟨?_, ?_⟩, Path.join_of_relativeTo? hrelative⟩
    · refine hsearches.mem_files_iff.mpr ⟨mem_within hf hrelative hne, hcomes, ?_⟩
      rw [Path.join_of_relativeTo? hrelative]
      exact h.isAt
    · exact (isWanted_iff hrelative).mpr ⟨⟨hne, hskipped⟩, l, hl, hlanguage⟩

theorem exists_language_of_discover (hpaths : t.discover root languages = .ok paths)
    (h : path ∈ paths) : ∃ l ∈ languages, Language.ofPath path = some l := by
  obtain ⟨-, relative, hrelative, hwanted⟩ := mem_discover hpaths h
  exact ((isWanted_iff hrelative).mp hwanted).2

end FileTree

namespace Extraction

theorem discovered_of_ne_nil (x : Extraction) {languages : List Language} (h : languages ≠ []) :
    x.discovered languages = x.files.discover x.root languages := by
  rw [discovered, if_neg (by simpa using h)]

/-- Results are about the files of some languages, all of them and no others. -/
structure KeepsTo (x : Extraction) (languages : List Language) (rs : List FileResult) : Prop where
  within : ∀ r ∈ rs, ∃ l ∈ languages, Language.ofPath (.ofText r.file) = some l
  every : ∀ path, x.files.Offers x.root path → ∀ l ∈ languages, Language.ofPath path = some l →
    ∃ r ∈ rs, x.nameOf? path = some r.file

theorem Tells.exists_file {x : Extraction} {paths : List Path} {rs : List FileResult}
    (h : x.Tells paths rs) {path : Path} (hpath : path ∈ paths) :
    ∃ r ∈ rs, x.nameOf? path = some r.file := by
  have hname : x.nameOf? path ∈ rs.map (some ∘ FileResult.file) :=
    h.names ▸ List.mem_map_of_mem hpath
  obtain ⟨r, hr, heq⟩ := List.mem_map.mp hname
  exact ⟨r, hr, heq.symm⟩

/-- Every result is what some file yields in its turn. -/
theorem Tells.exists_yields {x : Extraction} {paths : List Path} {rs : List FileResult}
    (h : x.Tells paths rs) (hnames : (paths.map x.nameOf?).Nodup) {r : FileResult} (hr : r ∈ rs) :
    ∃ z path l, path ∈ paths ∧ x.Lists path r.file l ∧
      Yields z path r.file l.name r := by
  have hname : some r.file ∈ paths.map x.nameOf? := h.names ▸ List.mem_map_of_mem hr
  obtain ⟨path, hpath, hfile⟩ := List.mem_map.mp hname
  obtain ⟨before, rest, rfl⟩ := List.append_of_mem hpath
  obtain ⟨file, l, hlists, r', hr', hyields⟩ := h.yields before path rest rfl
  obtain rfl : file = r.file := Option.some.inj (hlists.name.symm.trans hfile)
  obtain rfl : r' = r := List.inj_on_of_nodup_map (h.nodup_files hnames) hr' hr hyields.file
  exact ⟨_, path, l, hpath, hlists, hyields⟩

theorem exists_of_mem_keys {rs : List FileResult} {root file : String}
    (h : file ∈ (rs.foldl Yield.add { index := { root } }).index.files.keys) :
    ∃ r ∈ rs, r.file = file := by
  by_contra hnone
  have hother : ∀ r ∈ rs, r.file ≠ file := fun r hr heq => hnone ⟨r, hr, heq⟩
  rw [Table.mem_keys_iff, get?_files_foldl_add_of_ne _ hother] at h
  simp at h

theorem inventory_foldl_add_code (y : Yield) {rs : List FileResult}
    (h : ∀ r ∈ rs, ∃ f, r = .code f) : (rs.foldl Yield.add y).inventory = y.inventory := by
  induction rs generalizing y with
  | nil => rfl
  | cons r rs ih =>
    obtain ⟨f, rfl⟩ := h r List.mem_cons_self
    rw [List.foldl_cons, ih _ fun r hr => h r (List.mem_cons_of_mem _ hr)]
    rfl

section

variable {x : Extraction} {languages : List Language} {paths : List Path} {rs : List FileResult}
  (hroot : x.root.isAbsolute = true) (hnames : x.files.WellNamed)
  (hpaths : x.discovered languages = .ok paths)

include hroot hnames hpaths

/-- The name of a file that is discovered tells its language. -/
theorem ofPath_ofText_of_discovered {path : Path} {file : String} (hpath : path ∈ paths)
    (hfile : x.nameOf? path = some file) :
    Language.ofPath (.ofText file) = Language.ofPath path := by
  obtain ⟨relative, hname, hrelative, hne⟩ := nameOf?_of_discovered hpaths hroot hpath
  obtain rfl : relative.text = file := Option.some.inj (hname.symm.trans hfile)
  obtain ⟨⟨f, hf, hparts'⟩, -⟩ := FileTree.mem_discover hpaths hpath
  obtain ⟨l, -, hl⟩ := FileTree.exists_language_of_discover hpaths hpath
  obtain ⟨-, hlead, hparts⟩ := Path.relativeTo?_eq_some_iff.mp hrelative
  have hsuffix := Path.suffix_of_relativeTo? hrelative hne
  rw [Language.ofPath_eq_some_iff, hsuffix] at hl
  apply Language.ofPath_congr
  rw [hsuffix]
  refine Path.suffix_ofText_text hlead ?_ ?_
  · intro part hpart
    refine (hnames f hf part ?_).1
    rw [hparts', ← hparts]
    exact List.mem_append_right _ hpart
  · intro hempty
    rw [hempty] at hl
    cases l <;> exact absurd hl (by decide)

/-- Every result is what a file of a language asked for yields in its turn. -/
theorem Tells.exists_asked (hne : languages ≠ []) (h : x.Tells paths rs) {r : FileResult}
    (hr : r ∈ rs) :
    ∃ z path l, path ∈ paths ∧ l ∈ languages ∧ x.Lists path r.file l ∧
      Yields z path r.file l.name r := by
  obtain ⟨z, path, l, hpath, hlists, hyields⟩ :=
    h.exists_yields (nodup_names_of_discovered hpaths hroot hnames) hr
  obtain ⟨l', hl', hlanguage⟩ :=
    FileTree.exists_language_of_discover (x.discovered_of_ne_nil hne ▸ hpaths) hpath
  obtain rfl : l = l' := Option.some.inj (hlists.language.symm.trans hlanguage)
  exact ⟨z, path, l, hpath, hl', hlists, hyields⟩

theorem Tells.keepsTo (hne : languages ≠ []) (h : x.Tells paths rs) : x.KeepsTo languages rs where
  within r hr := by
    obtain ⟨-, path, l, hpath, hl, hlists, -⟩ := h.exists_asked hroot hnames hpaths hne hr
    refine ⟨l, hl, ?_⟩
    rw [ofPath_ofText_of_discovered hroot hnames hpaths hpath hlists.name, hlists.language]
  every path hoffers l hl hlanguage := by
    rw [x.discovered_of_ne_nil hne] at hpaths
    exact h.exists_file (hoffers.mem_discover hpaths hl hlanguage)

/-- A run that is not asked for infrastructure yields code only. -/
theorem Tells.exists_code (hne : languages ≠ []) (h : x.Tells paths rs)
    (hterraform : .terraform ∉ languages) : ∀ r ∈ rs, ∃ f, r = .code f := by
  intro r hr
  obtain ⟨z, path, l, -, hl, -, hyields⟩ := h.exists_asked hroot hnames hpaths hne hr
  apply hyields.exists_code
  cases l with
  | terraform => exact absurd hl hterraform
  | javascript | typescript | tsx => decide

end

/-- What a run reads is what a second reading of its request finds. If some name of the request is
known, the run keeps to the languages asked for; if none is, it is a run that nothing is asked of,
and reads every language. -/
theorem extract_keeps_to_request_unless_unknown {x : Extraction}
    (hroot : x.root.isAbsolute = true) (hnames : x.files.WellNamed) {names : List String}
    (hne : names ≠ []) :
    x.discovered (Language.expand names) =
      x.files.discover x.root (Language.expand ((Language.expand names).map Language.name)) ∧
    ((∃ name ∈ names, Language.requested name ≠ []) →
      ∀ y, (x.extract (Language.expand names)).2 = .ok y →
        (∃ rs, y = rs.foldl Yield.add { index := { root := x.root.text } } ∧
          x.KeepsTo (Language.expand names) rs) ∧
        (∀ file ∈ y.index.files.keys, ∃ l ∈ Language.expand names,
          Language.ofPath (.ofText file) = some l) ∧
        (.terraform ∉ Language.expand names → y.inventory = {})) ∧
    ((∀ name ∈ names, Language.requested name = []) →
      Language.expand names = [] ∧
        x.extract (Language.expand names) = x.extract (Language.expand [])) := by
  refine ⟨?_, ?_, ?_⟩
  · rw [discovered, Language.expand_map_name_expand hne]
  · rintro ⟨name, hname, hknown⟩ y hy
    have hasked : Language.expand names ≠ [] := by
      intro hnone
      exact hknown ((Language.expand_eq_nil_iff hne).mp hnone name hname)
    cases hpaths : x.discovered (Language.expand names) with
    | error f =>
      rw [snd_extract_of_fault hpaths] at hy
      cases hy
    | ok paths =>
      rw [snd_extract_of_discovered hpaths] at hy
      rcases results_cases (listsAll_of_discovered hpaths hroot hnames) with
        ⟨c, hc, -⟩ | ⟨rs, hrs, htells⟩
      · rw [hc] at hy
        cases hy
      · rw [hrs] at hy
        obtain rfl := Except.ok.inj hy
        have hkeeps := htells.keepsTo hroot hnames hpaths hasked
        refine ⟨⟨rs, rfl, hkeeps⟩, ?_, ?_⟩
        · intro file hfile
          obtain ⟨r, hr, rfl⟩ := exists_of_mem_keys hfile
          exact hkeeps.within r hr
        · intro hterraform
          exact inventory_foldl_add_code _
            (htells.exists_code hroot hnames hpaths hasked hterraform)
  · intro hunknown
    have hnone := (Language.expand_eq_nil_iff hne).mpr hunknown
    exact ⟨hnone, by rw [hnone]; rfl⟩

/-- A project with files of two languages, read without servers. -/
def mixedExtraction : Extraction where
  root := ⟨"/", ["w", "p"]⟩
  files := {
    files := [{ path := ⟨"/", ["w", "p", "a.js"]⟩, content := [] },
      { path := ⟨"/", ["w", "p", "b.ts"]⟩, content := [] }] }
  useServers := false

theorem wellNamed_mixedExtraction : mixedExtraction.files.WellNamed := by
  unfold FileTree.WellNamed
  decide

theorem discovered_mixedExtraction :
    mixedExtraction.discovered (Language.expand ["JavaScript", "cobol"]) =
      .ok [⟨"/", ["w", "p", "a.js"]⟩] := by
  refine FileTree.discover_of_sorted [⟨"", []⟩, ⟨"", ["a.js"]⟩, ⟨"", ["b.ts"]⟩]
    [⟨"", ["a.js"]⟩, ⟨"", ["b.ts"]⟩] ?_ ?_ ?_ ?_ ?_
  all_goals decide

/-- An unknown name beside a known one adds nothing. -/
theorem extract_keeps_to_request_mixedExtraction :
    mixedExtraction.root.isAbsolute = true ∧ mixedExtraction.files.WellNamed ∧
    ∃ y, (mixedExtraction.extract (Language.expand ["JavaScript", "cobol"])).2 = .ok y ∧
      y.index.files.keys = ["a.js"] ∧ y.inventory = {} ∧
      ∃ l ∈ Language.expand ["JavaScript", "cobol"], Language.ofPath (.ofText "a.js") = some l := by
  refine ⟨rfl, wellNamed_mixedExtraction, ?_⟩
  have hkeys : (mixedExtraction.extract (Language.expand ["JavaScript", "cobol"])).2.map
      (fun y => y.index.files.keys) = .ok ["a.js"] := by
    rw [snd_extract_of_discovered discovered_mixedExtraction]
    decide
  cases hy : (mixedExtraction.extract (Language.expand ["JavaScript", "cobol"])).2 with
  | error c =>
    rw [hy] at hkeys
    cases hkeys
  | ok y =>
    rw [hy] at hkeys
    have hkeys : y.index.files.keys = ["a.js"] := Except.ok.inj hkeys
    have hne : ["JavaScript", "cobol"] ≠ [] := by simp
    obtain ⟨-, hkeeps, -⟩ := extract_keeps_to_request_unless_unknown (x := mixedExtraction) rfl
      wellNamed_mixedExtraction hne
    obtain ⟨-, hfiles, hinventory⟩ := hkeeps ⟨"JavaScript", by simp, by decide⟩ y hy
    exact ⟨y, rfl, hkeys, hinventory (by decide), hfiles "a.js" (by simp [hkeys])⟩

/-- A request for a language that is not known asks for nothing, and yet a file is read. -/
theorem extract_ignores_unknown_request :
    Language.expand ["cobol"] = [] ∧
    ({ listExtraction with useServers := false }.extract (Language.expand ["cobol"])).2.map
      (fun y : Yield => y.index.files.keys) = .ok ["a.js"] ∧
    Language.ofPath (.ofText "a.js") = some .javascript := by
  refine ⟨by decide, ?_, by decide⟩
  have hpaths : discovered { listExtraction with useServers := false } (Language.expand ["cobol"]) =
      .ok [⟨"/", ["w", "p", "a.js"]⟩] := discovered_listExtraction
  rw [snd_extract_of_discovered hpaths]
  decide

end Extraction

end CodeAtlas
