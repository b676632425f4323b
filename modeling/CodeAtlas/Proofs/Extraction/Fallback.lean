import CodeAtlas.Proofs.Extraction.Clients
import CodeAtlas.Proofs.Extraction.Runs

/-!
# Runs without help

The run of a project whose servers help with no file goes in step with the run
that asks no server: the states have the project in common, and every file
comes to the same in both. Main statement: the two runs have the same result,
whatever the servers did in between.
-/

namespace CodeAtlas.Extraction

/-- Without servers a file that the library can read changes nothing. -/
theorem extractFile_of_off {x : Extraction} {path : Path} {file language : String}
    {source : SourceFile} (h : x.Locates path file) (hopen : x.Opens path source)
    (hoff : x.useServers = false) (hreads : x.Reads language) :
    x.extractFile path language = (x, x.ownOutcome file language source) := by
  rw [extractFile_of_opens h language hopen, hoff]
  exact tryAll_ownStrategy_of_reads hreads x file source []

/-- One file in two runs over the same project, of which the second asks no server. -/
theorem extractFile_in_step {x z : Extraction} {path : Path} {file : String} {l : Language}
    (h : z.Lists path file l) (hx : z.Alike x) (hoff : z.useServers = false)
    (hreads : z.Reads l.name)
    (hunaided : ∀ source, x.Opens path source → x.Unaided path l.name source.text) :
    ∃ w r, z.Alike w ∧ x.extractFile path l.name = (w, r) ∧
      z.extractFile path l.name = (z, r) := by
  have hlocates : x.Locates path file := h.toLocates.alike hx
  cases hopen : z.files.open? (z.root.join path) with
  | error fault =>
    have hfault : x.files.open? (x.root.join path) = .error fault := by
      rw [hx.files, hx.root, hopen]
    refine ⟨x, _, hx, extractFile_of_fault hlocates l.name hfault, ?_⟩
    rw [extractFile_of_fault h.toLocates l.name hopen, hx.root]
  | ok source =>
    have hopens : x.Opens path source := by
      rw [Opens, hx.files, hx.root, hopen]
    obtain ⟨w, hw, heq⟩ := (hunaided source hopens).extractFile_of_reads hlocates hopens
      ((hx.reads_iff l.name).mpr hreads)
    refine ⟨w, _, hx.trans hw, heq, ?_⟩
    rw [hx.ownOutcome]
    exact extractFile_of_off h.toLocates hopen hoff hreads

/-- No server helps with any of the files in its turn. -/
def UnaidedAll (x : Extraction) (paths : List Path) : Prop :=
  ∀ before path rest l source, paths = before ++ path :: rest →
    Language.ofPath path = some l → (x.after before).Opens path source →
    (x.after before).Unaided path l.name source.text

theorem UnaidedAll.tail {x w : Extraction} {path : Path} {paths : List Path}
    (h : x.UnaidedAll (path :: paths))
    (hafter : ∀ before, x.after (path :: before) = w.after before) : w.UnaidedAll paths := by
  intro before p rest l source hsplit hl hopen
  rw [← hafter] at hopen ⊢
  exact h (path :: before) p rest l source (by rw [hsplit]; rfl) hl hopen

/-- The library can read all files of a list. -/
def ReadsAll (x : Extraction) (paths : List Path) : Prop :=
  ∀ path ∈ paths, ∀ l, Language.ofPath path = some l → x.Reads l.name

theorem ReadsAll.tail {x : Extraction} {path : Path} {paths : List Path}
    (h : x.ReadsAll (path :: paths)) : x.ReadsAll paths :=
  fun p hp => h p (List.mem_cons_of_mem _ hp)

/-- The runs go in step over any files. -/
theorem results_in_step {x z : Extraction} {paths : List Path} (hx : z.Alike x)
    (hoff : z.useServers = false) (hall : z.ListsAll paths) (hreads : z.ReadsAll paths)
    (hunaided : x.UnaidedAll paths) : x.results paths = z.results paths := by
  induction paths generalizing x with
  | nil => rfl
  | cons path paths ih =>
    obtain ⟨file, l, hlists⟩ := hall path List.mem_cons_self
    have hlists' : x.Lists path file l := hlists.alike hx
    obtain ⟨w, r, hw, heq, heq'⟩ := extractFile_in_step hlists hx hoff
      (hreads path List.mem_cons_self l hlists.language)
      fun source hopen => hunaided [] path paths l source rfl hlists.language hopen
    cases r with
    | error c => rw [hlists'.results_of_error heq, hlists.results_of_error heq']
    | ok r =>
      have hrest : w.UnaidedAll paths := by
        refine hunaided.tail fun before => ?_
        rw [hlists'.after_cons, heq]
      rw [hlists'.results_of_ok heq, hlists.results_of_ok heq',
        ih hw (hall.tail (.refl z)) hreads.tail hrest]

/-- No file of a list is read by a tree that is too deep. -/
def Shallow (x : Extraction) (paths : List Path) : Prop :=
  ∀ path ∈ paths, ∀ l source, Language.ofPath path = some l → x.Opens path source →
    x.isTooDeep l.name source = false

theorem Shallow.results {z : Extraction} {paths : List Path} (h : z.Shallow paths)
    (hoff : z.useServers = false) (hall : z.ListsAll paths) (hreads : z.ReadsAll paths) :
    ∃ rs, z.results paths = .ok rs := by
  induction paths with
  | nil => exact ⟨[], rfl⟩
  | cons path paths ih =>
    obtain ⟨file, l, hlists⟩ := hall path List.mem_cons_self
    obtain ⟨r, heq⟩ : ∃ r, z.extractFile path l.name = (z, .ok r) := by
      cases hopen : z.files.open? (z.root.join path) with
      | error fault => exact ⟨_, extractFile_of_fault hlists.toLocates l.name hopen⟩
      | ok source =>
        refine ⟨ownResult file l.name source, ?_⟩
        have hdepth := h path List.mem_cons_self l source hlists.language hopen
        rw [extractFile_of_off hlists.toLocates hopen hoff
          (hreads path List.mem_cons_self l hlists.language), ownOutcome, hdepth]
        rfl
    obtain ⟨rs, hrs⟩ := ih (fun p hp => h p (List.mem_cons_of_mem _ hp)) (hall.tail (.refl z))
      hreads.tail
    exact ⟨r :: rs, by rw [hlists.results_of_ok heq, hrs]; rfl⟩

/-- If the library can read every file, and no server helps with any in its turn, then the run comes
to the same as the run that asks no server: to a result, if the files are found and no tree is too
deep. -/
theorem extract_eq_extract_off {x : Extraction} (hroot : x.root.isAbsolute = true)
    (hnames : x.files.WellNamed) (languages : List Language)
    (hreads : ∀ paths, x.discovered languages = .ok paths → x.ReadsAll paths)
    (hunaided : ∀ paths, x.discovered languages = .ok paths → x.UnaidedAll paths) :
    (x.extract languages).2 = ({ x with useServers := false }.extract languages).2 ∧
    ∀ paths, x.discovered languages = .ok paths → x.Shallow paths →
      ∃ y, (x.extract languages).2 = .ok y := by
  have hall : ∀ paths, x.discovered languages = .ok paths →
      ListsAll { x with useServers := false } paths := fun paths hpaths =>
    listsAll_of_discovered (x := { x with useServers := false }) hpaths hroot hnames
  have hresults : ∀ paths, x.discovered languages = .ok paths →
      x.results paths = results { x with useServers := false } paths := fun paths hpaths =>
    results_in_step ⟨rfl, rfl, rfl⟩ rfl (hall paths hpaths) (hreads paths hpaths)
      (hunaided paths hpaths)
  constructor
  · cases hpaths : x.discovered languages with
    | error f =>
      have hoff : discovered { x with useServers := false } languages = .error f := hpaths
      rw [snd_extract_of_fault hpaths, snd_extract_of_fault hoff]
    | ok paths =>
      have hoff : discovered { x with useServers := false } languages = .ok paths := hpaths
      rw [snd_extract_of_discovered hpaths, snd_extract_of_discovered hoff, hresults paths hpaths]
  · intro paths hpaths hshallow
    have hoff : Shallow { x with useServers := false } paths := hshallow
    obtain ⟨rs, hrs⟩ := hoff.results rfl (hall paths hpaths) (hreads paths hpaths)
    rw [snd_extract_of_discovered hpaths, hresults paths hpaths, hrs]
    exact ⟨_, rfl⟩

end CodeAtlas.Extraction

/-- A session gets the outline that its server answers with, if the document can be opened. -/
theorem CodeAtlas.Server.Session.fetchOutline_of_answer {s t : Session} {path : Path}
    {text languageId : String} (uri : String) (id : Nat) {v : Value}
    (huri : path.uri? = some uri)
    (hopen : (s.openDocument uri text languageId).2 = .ok ())
    (hid : ((s.openDocument uri text languageId).1.requestOutline uri).2 = .ok id)
    (hawait : ((s.openDocument uri text languageId).1.requestOutline uri).1.await id =
      (t, .answer v)) :
    (s.fetchOutline path text languageId).2 = outlineOf (.answer v) := by
  rw [fetchOutline, huri]
  dsimp only
  generalize s.openDocument uri text languageId = opened at hopen hid hawait ⊢
  obtain ⟨opened, r⟩ := opened
  obtain rfl : r = .ok () := hopen
  dsimp only at hid hawait ⊢
  rw [outline]
  generalize opened.requestOutline uri = asked at hid hawait ⊢
  obtain ⟨asked, r⟩ := asked
  obtain rfl : r = .ok id := hid
  dsimp only at hawait ⊢
  rw [hawait]

namespace CodeAtlas.Extraction

open Server

def terraformServer : ServerConfig where
  language := "terraform"
  command := .text "tls"

/-- A server that knows of nothing in any document. -/
def emptyScript : Script where
  replies := .ofPairs [("textDocument/documentSymbol", [[.result (.list [])]])]

/-- A project with a server that cannot be started, and one that starts and has nothing to tell. -/
def unaidedExtraction : Extraction where
  root := ⟨"/", ["w", "p"]⟩
  files := { files := [{ path := ⟨"/", ["w", "p", "a.tf"]⟩, content := [120, 10] },
    { path := ⟨"/", ["w", "p", "b.js"]⟩, content := [102, 40, 41, 10] }] }
  grammars := { packages := [("tree_sitter_javascript", ["language"])] }
  servers := .ofPairs [("terraform", terraformServer), ("javascript", listServer)]
  programs := .ofTable (.ofPairs [("tls", { spawnFault? := fun _ _ => some (.missing "tls") }),
    ("srv", emptyScript)])

theorem discovered_unaidedExtraction : unaidedExtraction.discovered [] =
    .ok [⟨"/", ["w", "p", "a.tf"]⟩, ⟨"/", ["w", "p", "b.js"]⟩] := by
  refine FileTree.discover_of_sorted [⟨"", []⟩, ⟨"", ["a.tf"]⟩, ⟨"", ["b.js"]⟩]
    [⟨"", ["a.tf"]⟩, ⟨"", ["b.js"]⟩] ?_ ?_ ?_ ?_ ?_
  all_goals decide

/-- The state of the project after its first file. -/
def halfwayExtraction : Extraction := unaidedExtraction.after [⟨"/", ["w", "p", "a.tf"]⟩]

theorem launches_halfwayExtraction :
    halfwayExtraction.Launches "javascript" listServer emptyScript :=
  ⟨⟨rfl, rfl, rfl⟩, rfl, rfl⟩

/-- The server of the second file starts, and answers with an empty outline. -/
theorem start_halfwayExtraction :
    ∃ s, (halfwayExtraction.newSession "javascript" listServer.argv emptyScript).start =
      (s, none) ∧
      ({ s with log := [] }.fetchOutline ⟨"/", ["w", "p", "b.js"]⟩ "f()\n"
        ((Language.serverId? ⟨"/", ["w", "p", "b.js"]⟩).getD s.languageId)).2 = .ok [] := by
  have hgreets := Session.greets_of_await
    (s := halfwayExtraction.newSession "javascript" listServer.argv emptyScript) "file:///w/p" 1
    rfl rfl (by decide +kernel) rfl (Session.await_of_reply
      (Peer.reply (.integer 1) "result" (.record [("capabilities", .record [])])) []
      (by decide +kernel) (by decide +kernel) (by decide +kernel) (by decide +kernel) rfl)
  refine ⟨_, hgreets.start, ?_⟩
  refine (Session.fetchOutline_of_answer "file:///w/p/b.js" 2 ?_ rfl rfl
    (Session.await_of_reply (Peer.reply (.integer 2) "result" (.list [])) [] ?_ ?_ ?_ ?_ rfl)).trans
    rfl
  all_goals decide +kernel

theorem unaided_halfwayExtraction {source : SourceFile}
    (hopen : halfwayExtraction.Opens ⟨"/", ["w", "p", "b.js"]⟩ source) :
    halfwayExtraction.Unaided ⟨"/", ["w", "p", "b.js"]⟩ "javascript" source.text := by
  obtain ⟨s, hstart, houtline⟩ := start_halfwayExtraction
  obtain ⟨z, hclient, hsession⟩ :=
    launches_halfwayExtraction.exists_session (congrArg Prod.snd hstart)
  refine .declined hclient (.inr ?_)
  obtain rfl := Except.ok.inj hopen
  have htext : String.ofList (SourceFile.text
      { path := ⟨"/", ["w", "p", "b.js"]⟩, content := [102, 40, 41, 10] }) = "f()\n" := by
    decide
  rw [hstart] at hsession
  rw [snd_fetch hsession, htext]
  exact houtline

/-- The first file finds that its server does not start, and the second that its server has nothing
to tell. -/
theorem unaidedAll_unaidedExtraction :
    unaidedExtraction.UnaidedAll [⟨"/", ["w", "p", "a.tf"]⟩, ⟨"/", ["w", "p", "b.js"]⟩] := by
  intro before path rest l source hsplit hl hopen
  rcases before with _ | ⟨p, _ | ⟨q, before⟩⟩
  · cases hsplit
    obtain rfl : Language.terraform = l := Option.some.inj hl
    exact .unavailable (.unstarted ⟨⟨rfl, rfl, rfl⟩, rfl, rfl⟩ rfl rfl)
  · cases hsplit
    obtain rfl : Language.javascript = l := Option.some.inj hl
    exact unaided_halfwayExtraction hopen
  · simp at hsplit

/-- Servers that were tried in vain leave no trace. -/
theorem extract_unaidedExtraction_eq_off :
    unaidedExtraction.root.isAbsolute = true ∧ unaidedExtraction.files.WellNamed ∧
    (∀ paths, unaidedExtraction.discovered [] = .ok paths →
      unaidedExtraction.ReadsAll paths ∧ unaidedExtraction.UnaidedAll paths) ∧
    ∃ y, (unaidedExtraction.extract []).2 = .ok y ∧
      ({ unaidedExtraction with useServers := false }.extract []).2 = .ok y := by
  have hnames : unaidedExtraction.files.WellNamed := by
    unfold FileTree.WellNamed
    decide
  have hpremises : ∀ paths, unaidedExtraction.discovered [] = .ok paths →
      unaidedExtraction.ReadsAll paths ∧ unaidedExtraction.UnaidedAll paths := by
    intro paths hpaths
    obtain rfl := Except.ok.inj (discovered_unaidedExtraction.symm.trans hpaths)
    refine ⟨?_, unaidedAll_unaidedExtraction⟩
    intro path hpath l hl
    rcases List.mem_pair.mp hpath with rfl | rfl
    · obtain rfl : Language.terraform = l := Option.some.inj hl
      exact .inl rfl
    · obtain rfl : Language.javascript = l := Option.some.inj hl
      exact .inr (by decide)
  obtain ⟨heq, hok⟩ := extract_eq_extract_off rfl hnames []
    (fun paths hpaths => (hpremises paths hpaths).1)
    (fun paths hpaths => (hpremises paths hpaths).2)
  have hshallow : unaidedExtraction.Shallow
      [⟨"/", ["w", "p", "a.tf"]⟩, ⟨"/", ["w", "p", "b.js"]⟩] := by
    intro path hpath l source hl hopen
    simp [isTooDeep, unaidedExtraction]
  obtain ⟨y, hy⟩ := hok _ discovered_unaidedExtraction hshallow
  exact ⟨rfl, hnames, hpremises, y, hy, heq.symm.trans hy⟩

end CodeAtlas.Extraction
