import CodeAtlas.Proofs.Extraction.Files
import CodeAtlas.Proofs.Search
import CodeAtlas.Proofs.Table

/-!
# Whole runs

A run reads the files of a project one after another, and each file is read in
the state that the files before it left. Every file that is found has a language
and a name of its own. So a run that no file ends holds an entry for each source
file under its name, with what the file yields; and a run that some file ends has
no result.
-/

namespace CodeAtlas

namespace Path

theorem isAbsolute_of_relativeTo? {p dir r : Path} (h : p.relativeTo? dir = some r) :
    p.isAbsolute = dir.isAbsolute := by
  rw [isAbsolute, isAbsolute, (relativeTo?_eq_some_iff.mp h).1]

theorem suffix_of_relativeTo? {p dir r : Path} (h : p.relativeTo? dir = some r)
    (hne : r.parts ≠ []) : p.suffix = r.suffix := by
  obtain ⟨last, hlast⟩ := Option.ne_none_iff_exists'.mp (mt List.getLast?_eq_none_iff.mp hne)
  have hname : p.name = r.name := by
    rw [name, name, ← (relativeTo?_eq_some_iff.mp h).2.2, List.getLast?_append, hlast,
      Option.some_or]
  rw [suffix, suffix, hname]

/-- The parts of a relative path stand between the slashes of its text. -/
theorem splitOn_text {r : Path} (hlead : r.lead = "") (hne : r.parts ≠ [])
    (hslash : ∀ part ∈ r.parts, '/' ∉ part.toList) :
    r.text.toList.splitOn '/' = r.parts.map String.toList := by
  have htext : r.text = "/".intercalate r.parts := by
    have hparts : r.parts.isEmpty = false := by simpa using hne
    rw [text, hlead, hparts]
    exact String.empty_append
  have hpieces : ∀ l ∈ r.parts.map String.toList, '/' ∉ l := by
    intro l hl
    obtain ⟨part, hpart, rfl⟩ := List.mem_map.mp hl
    exact hslash part hpart
  rw [htext, String.toList_intercalate]
  exact List.splitOn_intercalate '/' hpieces (by simpa using hne)

theorem text_inj {p q : Path} (hp : p.lead = "") (hq : q.lead = "") (hpne : p.parts ≠ [])
    (hqne : q.parts ≠ []) (hpslash : ∀ part ∈ p.parts, '/' ∉ part.toList)
    (hqslash : ∀ part ∈ q.parts, '/' ∉ part.toList) (h : p.text = q.text) :
    p.parts = q.parts := by
  have hparts := splitOn_text hp hpne hpslash
  rw [h, splitOn_text hq hqne hqslash] at hparts
  have hinj : Function.Injective String.toList := fun _ _ => String.toList_injective
  exact (List.map_injective_iff.mpr hinj hparts).symm

end Path

namespace FileTree

/-- Names of files hold neither a slash nor the character zero. -/
def WellNamed (t : FileTree) : Prop :=
  ∀ f ∈ t.files, ∀ part ∈ f.path.parts, '/' ∉ part.toList ∧ Char.ofNat 0 ∉ part.toList

/-- A file that is wanted has a suffix of some language. -/
theorem exists_suffix_of_isWanted {languages : List Language} {r : Path}
    (h : isWanted languages r = true) : ∃ l : Language, l.suffixes.contains r.suffix = true := by
  rw [isWanted, Bool.and_eq_true, List.any_eq_true] at h
  obtain ⟨⟨l, -, hl⟩, -⟩ := h
  exact ⟨l, hl⟩

theorem parts_ne_nil_of_isWanted {languages : List Language} {r : Path}
    (h : isWanted languages r = true) : r.parts ≠ [] := by
  intro hparts
  obtain ⟨l, hl⟩ := exists_suffix_of_isWanted h
  have hsuffix : r.suffix = "" := by rw [Path.suffix, Path.name, hparts]; rfl
  rw [hsuffix] at hl
  cases l <;> exact absurd hl (by decide)

end FileTree

theorem Language.exists_ofPath {p : Path} {l : Language} (h : l.suffixes.contains p.suffix = true) :
    ∃ l, Language.ofPath p = some l := by
  refine Option.isSome_iff_exists.mp (List.find?_isSome.mpr ⟨l, ?_, h⟩)
  cases l <;> decide

namespace Extraction

/-- A file that a run comes to: the name that it goes by, and its language. -/
structure Lists (x : Extraction) (path : Path) (file : String) (l : Language) : Prop
    extends x.Locates path file where
  language : Language.ofPath path = some l

theorem Lists.alike {x z : Extraction} {path : Path} {file : String} {l : Language}
    (h : x.Lists path file l) (hz : x.Alike z) : z.Lists path file l :=
  ⟨h.toLocates.alike hz, h.language⟩

/-- All files of a list have a name and a language. -/
def ListsAll (x : Extraction) (paths : List Path) : Prop :=
  ∀ path ∈ paths, ∃ file l, x.Lists path file l

/-- The state changes from file to file, but not what the files are called. -/
theorem ListsAll.tail {x z : Extraction} {path : Path} {paths : List Path}
    (h : x.ListsAll (path :: paths)) (hz : x.Alike z) : z.ListsAll paths := by
  intro p hp
  obtain ⟨file, l, hlists⟩ := h p (List.mem_cons_of_mem _ hp)
  exact ⟨file, l, hlists.alike hz⟩

section

variable {x : Extraction} {languages : List Language} {paths : List Path}
  (hpaths : x.discovered languages = .ok paths) (hroot : x.root.isAbsolute = true)
  (hnames : x.files.WellNamed)

include hpaths hroot

/-- A file that is discovered goes by its path below the project. -/
theorem nameOf?_of_discovered {path : Path} (h : path ∈ paths) :
    ∃ relative, x.nameOf? path = some relative.text ∧ path.relativeTo? x.root = some relative ∧
      relative.parts ≠ [] := by
  obtain ⟨-, relative, hrelative, hwanted⟩ := FileTree.mem_discover hpaths h
  have habsolute : path.isAbsolute = true := (Path.isAbsolute_of_relativeTo? hrelative).trans hroot
  refine ⟨relative, ?_, hrelative, FileTree.parts_ne_nil_of_isWanted hwanted⟩
  rw [nameOf?, if_pos habsolute, hrelative]
  rfl

include hnames

theorem listsAll_of_discovered : x.ListsAll paths := by
  intro path h
  obtain ⟨relative, hname, hrelative, hne⟩ := nameOf?_of_discovered hpaths hroot h
  obtain ⟨⟨f, hf, hfile⟩, relative', hrelative', hwanted⟩ := FileTree.mem_discover hpaths h
  obtain rfl : relative' = relative := Option.some.inj (hrelative'.symm.trans hrelative)
  obtain ⟨l, hl⟩ := FileTree.exists_suffix_of_isWanted hwanted
  rw [← Path.suffix_of_relativeTo? hrelative hne] at hl
  obtain ⟨l', hl'⟩ := Language.exists_ofPath hl
  have habsolute : path.isAbsolute = true :=
    (Path.isAbsolute_of_relativeTo? hrelative).trans hroot
  refine ⟨_, l', ⟨hname, ?_⟩, hl'⟩
  rw [Path.join, if_pos habsolute, Path.isPossible, ← hfile, List.all_eq_true]
  intro part hpart
  simpa using (hnames f hf part hpart).2

/-- No two files of a run go by the same name. -/
theorem nodup_names_of_discovered : (paths.map x.nameOf?).Nodup := by
  refine List.Nodup.map_on ?_ (FileTree.nodup_discover hpaths)
  intro p hp q hq hpq
  obtain ⟨r, hr, hrelative, hrne⟩ := nameOf?_of_discovered hpaths hroot hp
  obtain ⟨r', hr', hrelative', hrne'⟩ := nameOf?_of_discovered hpaths hroot hq
  obtain ⟨-, hrlead, hparts⟩ := Path.relativeTo?_eq_some_iff.mp hrelative
  obtain ⟨-, hrlead', hparts'⟩ := Path.relativeTo?_eq_some_iff.mp hrelative'
  have hslash : ∀ {p r : Path}, p ∈ paths → x.root.parts ++ r.parts = p.parts →
      ∀ part ∈ r.parts, '/' ∉ part.toList := by
    intro p r hp hparts part hpart
    obtain ⟨⟨f, hf, hfile⟩, -⟩ := FileTree.mem_discover hpaths hp
    refine (hnames f hf part ?_).1
    rw [hfile, ← hparts]
    exact List.mem_append_right _ hpart
  have htext : r.text = r'.text := Option.some.inj (hr.symm.trans (hpq.trans hr'))
  have hrparts : r.parts = r'.parts :=
    Path.text_inj hrlead hrlead' hrne hrne' (hslash hp hparts) (hslash hq hparts') htext
  rw [← Path.join_of_relativeTo? hrelative, ← Path.join_of_relativeTo? hrelative',
    Path.join_of_lead hrlead, Path.join_of_lead hrlead', hrparts]

end

end Extraction

/-- The file that a result is about. -/
def FileResult.file : FileResult → String
  | .code f => f.file
  | .infrastructure m => m.file

theorem FileResult.file_failed (file language error : String) :
    (FileResult.failed file language error).file = file := by
  unfold FileResult.failed
  split <;> rfl

namespace Extraction

theorem file_ownResult (file language : String) (source : SourceFile) :
    (ownResult file language source).file = file := by
  unfold ownResult
  split <;> rfl

theorem file_of_outlinedFindings {gs : Grammars} {file language : String} {text : List Char}
    {tree : Tree.Node} {outline : List Server.Outline} {f : Findings}
    (h : outlinedFindings gs file language text tree outline = some f) : f.file = file := by
  obtain ⟨walked, -, rfl⟩ := Option.map_eq_some_iff.mp h
  rfl

/-- An outline makes of a file what is in its own name, and code of a source file. -/
theorem outlined_eq_ok {x : Extraction} {file language : String} {source : SourceFile}
    {outline : List Server.Outline} {r : FileResult}
    (h : x.outlined file language source outline = .ok r) :
    r.file = file ∧ (Language.isInfrastructure language = false → ∃ f, r = .code f) := by
  unfold outlined at h
  cases hinfra : Language.isInfrastructure language with
  | true =>
    rw [hinfra, if_pos rfl, manifestBy] at h
    split at h
    · obtain rfl := Except.ok.inj h
      exact ⟨rfl, fun hno => by cases hno⟩
    · cases h
  | false =>
    rw [hinfra, if_neg Bool.false_ne_true, findingsBy] at h
    split at h
    · cases h
    next f hf =>
      split at h
      · obtain rfl := Except.ok.inj h
        exact ⟨file_of_outlinedFindings hf, fun _ => ⟨f, rfl⟩⟩
      · cases h

/-- What a file yields is in its own name. -/
theorem Yields.file {x : Extraction} {path : Path} {file language : String} {r : FileResult}
    (h : x.Yields path file language r) : r.file = file := by
  cases h with
  | unreadable | failed => exact FileResult.file_failed file language _
  | server _ _ _ houtlines =>
    obtain ⟨outline, -, -, hread⟩ := houtlines
    exact (outlined_eq_ok hread).1
  | own => exact file_ownResult file language _

/-- The state after a file. -/
def afterFile (x : Extraction) (path : Path) : Extraction :=
  match Language.ofPath path with
  | none => x
  | some l => (x.extractFile path l.name).1

/-- The state of a run that has read some files. -/
def after (x : Extraction) (paths : List Path) : Extraction := paths.foldl afterFile x

/-- What files yield in turn, unless one of them ends the run. -/
def results (x : Extraction) : List Path → Except Crash (List FileResult)
  | [] => .ok []
  | path :: rest =>
    match Language.ofPath path with
    | none => x.results rest
    | some l =>
      match x.extractFile path l.name with
      | (_, .error c) => .error c
      | (z, .ok r) => (z.results rest).map (r :: ·)

theorem snd_extractAll (x : Extraction) (y : Yield) (paths : List Path) :
    (x.extractAll y paths).2 = (x.results paths).map (·.foldl Yield.add y) := by
  induction paths generalizing x y with
  | nil => rfl
  | cons path rest ih =>
    unfold extractAll results
    cases Language.ofPath path with
    | none => exact ih x y
    | some l =>
      dsimp only
      rcases x.extractFile path l.name with ⟨z, c | r⟩
      · rfl
      · dsimp only
        rw [ih z (y.add r)]
        cases z.results rest <;> rfl

/-- The result of a run is the merge of what the files yield that it discovers. -/
theorem snd_extract_of_discovered {x : Extraction} {languages : List Language} {paths : List Path}
    (h : x.discovered languages = .ok paths) :
    (x.extract languages).2 =
      (x.results paths).map (·.foldl Yield.add { index := { root := x.root.text } }) := by
  rw [extract, h]
  exact snd_extractAll x _ paths

theorem snd_extract_of_fault {x : Extraction} {languages : List Language} {f : FileTree.Fault}
    (h : x.discovered languages = .error f) : (x.extract languages).2 = .error (.search f) := by
  rw [extract, h]

/-- Some file of a run ends it. -/
def DerailsIn (x : Extraction) (paths : List Path) : Prop :=
  ∃ before path rest file l, paths = before ++ path :: rest ∧ x.Lists path file l ∧
    (x.after before).Derails path file l.name

theorem Lists.results_of_error {x z : Extraction} {path : Path} {file : String} {l : Language}
    {c : Crash} (h : x.Lists path file l) (heq : x.extractFile path l.name = (z, .error c))
    (rest : List Path) : x.results (path :: rest) = .error c := by
  unfold results
  rw [h.language]
  dsimp only
  rw [heq]

theorem Lists.results_of_ok {x z : Extraction} {path : Path} {file : String} {l : Language}
    {r : FileResult} (h : x.Lists path file l) (heq : x.extractFile path l.name = (z, .ok r))
    (rest : List Path) : x.results (path :: rest) = (z.results rest).map (r :: ·) := by
  conv_lhs => unfold results
  rw [h.language]
  dsimp only
  rw [heq]

theorem Lists.after_cons {x : Extraction} {path : Path} {file : String} {l : Language}
    (h : x.Lists path file l) (rest : List Path) :
    x.after (path :: rest) = (x.extractFile path l.name).1.after rest := by
  have hstep : x.afterFile path = (x.extractFile path l.name).1 := by
    unfold afterFile
    rw [h.language]
  rw [after, List.foldl_cons, hstep]
  rfl

/-- The results of a run that no file ends: every file yields what it should in its turn, in its
own name. -/
structure Tells (x : Extraction) (paths : List Path) (rs : List FileResult) : Prop where
  names : rs.map (some ∘ FileResult.file) = paths.map x.nameOf?
  yields : ∀ before path rest, paths = before ++ path :: rest → ∃ file l, x.Lists path file l ∧
    ∃ r ∈ rs, (x.after before).Yields path file l.name r

theorem Tells.cons {x z : Extraction} {path : Path} {file : String} {l : Language}
    {paths : List Path} {r : FileResult} {rs : List FileResult} (h : x.Lists path file l)
    (heq : x.extractFile path l.name = (z, .ok r)) (hz : x.Alike z)
    (hyields : x.Yields path file l.name r) (hrest : z.Tells paths rs) :
    x.Tells (path :: paths) (r :: rs) where
  names := by
    have hnames : paths.map z.nameOf? = paths.map x.nameOf? :=
      List.map_congr_left fun p _ => hz.nameOf? p
    rw [List.map_cons, List.map_cons, hrest.names, hnames, h.name, Function.comp_apply,
      hyields.file]
  yields := by
    intro before p rest hsplit
    rcases List.append_eq_cons_iff.mp hsplit.symm with ⟨rfl, hhead⟩ | ⟨before', rfl, htail⟩
    · obtain ⟨rfl, rfl⟩ := List.cons.inj hhead
      exact ⟨file, l, h, r, List.mem_cons_self, hyields⟩
    · obtain ⟨file', l', hlists, r', hr', hyields'⟩ := hrest.yields before' p rest htail
      refine ⟨file', l', ?_, r', List.mem_cons_of_mem _ hr', ?_⟩
      · exact hlists.alike hz.symm
      · rw [h.after_cons, heq]
        exact hyields'

/-- Files are read in turn up to the first that ends the run. -/
theorem results_cases {x : Extraction} {paths : List Path} (hall : x.ListsAll paths) :
    (∃ c, x.results paths = .error c ∧ x.DerailsIn paths) ∨
    ∃ rs, x.results paths = .ok rs ∧ x.Tells paths rs := by
  induction paths generalizing x with
  | nil =>
    refine .inr ⟨[], rfl, rfl, ?_⟩
    intro before path rest h
    simp at h
  | cons path paths ih =>
    obtain ⟨file, l, hlists⟩ := hall path List.mem_cons_self
    obtain ⟨z, hz, hcases⟩ := extractFile_cases hlists.toLocates l.name
    rcases hcases with ⟨c, heq, hderails⟩ | ⟨r, heq, hyields⟩
    · exact .inl ⟨c, hlists.results_of_error heq paths, [], path, paths, file, l, rfl, hlists,
        hderails⟩
    · rw [hlists.results_of_ok heq]
      rcases ih (hall.tail hz) with ⟨c, hc, before, p, rest, file', l', rfl, hlists', hderails⟩ |
        ⟨rs, hrs, htells⟩
      · refine .inl ⟨c, by rw [hc]; rfl, path :: before, p, rest, file', l', rfl,
          hlists'.alike hz.symm, ?_⟩
        rw [hlists.after_cons, heq]
        exact hderails
      · exact .inr ⟨r :: rs, by rw [hrs]; rfl, .cons hlists heq hz hyields htells⟩

theorem DerailsIn.results {x : Extraction} {paths : List Path} (h : x.DerailsIn paths)
    (hall : x.ListsAll paths) : ∃ c, x.results paths = .error c := by
  obtain ⟨before, path, rest, file, l, rfl, hlists, hderails⟩ := h
  induction before generalizing x with
  | nil =>
    change x.Derails path file l.name at hderails
    obtain ⟨z, c, heq⟩ := hderails.extractFile hlists.toLocates
    exact ⟨c, hlists.results_of_error heq rest⟩
  | cons p before ih =>
    obtain ⟨file', l', hp⟩ := hall p List.mem_cons_self
    obtain ⟨z, hz, hcases⟩ := extractFile_cases hp.toLocates l'.name
    rcases hcases with ⟨c, heq, -⟩ | ⟨r, heq, -⟩
    · exact ⟨c, hp.results_of_error heq _⟩
    · rw [hp.after_cons, heq] at hderails
      obtain ⟨c, hc⟩ := ih (hall.tail hz) (hlists.alike hz) hderails
      refine ⟨c, ?_⟩
      rw [List.cons_append, hp.results_of_ok heq, hc]
      rfl

theorem get?_files_add_of_ne (y : Yield) {r : FileResult} {key : String} (h : r.file ≠ key) :
    (y.add r).index.files.get? key = y.index.files.get? key := by
  cases r with
  | code f => exact (Table.get?_insert _ _ _ _).trans (if_neg h.symm)
  | infrastructure m => rfl

theorem get?_files_foldl_add_of_ne (y : Yield) {rs : List FileResult} {key : String}
    (h : ∀ r ∈ rs, r.file ≠ key) :
    (rs.foldl Yield.add y).index.files.get? key = y.index.files.get? key := by
  induction rs generalizing y with
  | nil => rfl
  | cons r rs ih =>
    rw [List.foldl_cons, ih (y.add r) fun r' hr' => h r' (List.mem_cons_of_mem _ hr'),
      get?_files_add_of_ne y (h r List.mem_cons_self)]

/-- Results about different files keep each other's entries. -/
theorem get?_files_foldl_add (y : Yield) {rs : List FileResult}
    (hnodup : (rs.map FileResult.file).Nodup) {f : Findings} (hf : .code f ∈ rs) :
    (rs.foldl Yield.add y).index.files.get? f.file = some (.ofFindings f) := by
  obtain ⟨rs₁, rs₂, rfl⟩ := List.append_of_mem hf
  rw [List.map_append, List.map_cons] at hnodup
  have hlater : ∀ r ∈ rs₂, r.file ≠ f.file := by
    intro r hr heq
    have hcons := (List.nodup_cons.mp (List.nodup_append.mp hnodup).2.1).1
    exact hcons (List.mem_map.mpr ⟨r, hr, heq⟩)
  rw [List.foldl_append, List.foldl_cons, get?_files_foldl_add_of_ne _ hlater]
  exact (Table.get?_insert _ _ _ _).trans (if_pos rfl)

theorem Tells.nodup_files {x : Extraction} {paths : List Path} {rs : List FileResult}
    (h : x.Tells paths rs) (hnames : (paths.map x.nameOf?).Nodup) :
    (rs.map FileResult.file).Nodup := by
  rw [← h.names, ← List.map_map] at hnames
  exact hnames.of_map some

/-- A source file yields code. -/
theorem Yields.exists_code {x : Extraction} {path : Path} {file language : String}
    {r : FileResult} (h : x.Yields path file language r)
    (hlanguage : Language.isInfrastructure language = false) : ∃ f, r = .code f := by
  have hfailed : ∀ error, ∃ f, FileResult.failed file language error = .code f := by
    intro error
    rw [FileResult.failed, hlanguage]
    exact ⟨_, rfl⟩
  cases h with
  | unreadable | failed => exact hfailed _
  | server _ _ _ houtlines =>
    obtain ⟨outline, -, -, hread⟩ := houtlines
    exact (outlined_eq_ok hread).2 hlanguage
  | own =>
    rw [ownResult, hlanguage]
    exact ⟨_, rfl⟩

def listServer : ServerConfig where
  language := "javascript"
  command := .text "srv"

/-- A project with one source file, for which a server is set up that answers its first request with
a list. -/
def listExtraction : Extraction where
  root := ⟨"/", ["w", "p"]⟩
  files := { files := [{ path := ⟨"/", ["w", "p", "a.js"]⟩, content := [] }] }
  grammars := { packages := [("tree_sitter_javascript", ["language"])] }
  servers := .ofPairs [("javascript", listServer)]
  programs := .ofTable (.ofPairs [("srv", Server.Session.listSession.script)])

theorem wellNamed_listExtraction : listExtraction.files.WellNamed := by
  unfold FileTree.WellNamed
  decide

theorem discovered_listExtraction :
    listExtraction.discovered [] = .ok [⟨"/", ["w", "p", "a.js"]⟩] := by
  refine FileTree.discover_of_sorted [⟨"", []⟩, ⟨"", ["a.js"]⟩] [⟨"", ["a.js"]⟩] ?_ ?_ ?_ ?_ ?_
  all_goals decide

theorem lists_listExtraction :
    listExtraction.Lists ⟨"/", ["w", "p", "a.js"]⟩ "a.js" .javascript :=
  ⟨⟨by decide, by decide⟩, by decide⟩

theorem launches_listExtraction :
    listExtraction.Launches "javascript" listServer Server.Session.listSession.script :=
  ⟨⟨rfl, rfl, rfl⟩, rfl, rfl⟩

theorem opens_listExtraction : ∃ source, listExtraction.Opens ⟨"/", ["w", "p", "a.js"]⟩ source :=
  ⟨_, rfl⟩

/-- The same project on a device that fails. -/
def brokenExtraction : Extraction :=
  { listExtraction with
    files := { listExtraction.files with readFault? := fun _ => some .inputOutput } }

theorem obstructed_brokenExtraction : brokenExtraction.files.Obstructed brokenExtraction.root :=
  @FileTree.Obstructed.directory _ _ ⟨"", []⟩ .inputOutput (by decide)
    (by decide) (by decide)

end Extraction

end CodeAtlas
