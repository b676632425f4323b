import CodeAtlas.Proofs.Server.Starts

/-!
# What one file yields

The server of a file's language is unavailable, cannot be dealt with, or is
asked. A file yields what the server's outline gives, or else what the library
makes of it alone, or else an error; and there are few ways in which a file can
end a run. All of this is said of one file at one state of a run.
-/

namespace CodeAtlas.Extraction

open Server

/-- Two states of a run: they have the project and the grammars in common. -/
structure Alike (x z : Extraction) : Prop where
  root : z.root = x.root
  files : z.files = x.files
  grammars : z.grammars = x.grammars

theorem Alike.refl (x : Extraction) : x.Alike x := ⟨rfl, rfl, rfl⟩

theorem Alike.symm {x z : Extraction} (h : x.Alike z) : z.Alike x :=
  ⟨h.root.symm, h.files.symm, h.grammars.symm⟩

theorem Alike.trans {x y z : Extraction} (h : x.Alike y) (h' : y.Alike z) : x.Alike z :=
  ⟨h'.root.trans h.root, h'.files.trans h.files, h'.grammars.trans h.grammars⟩

theorem alike_setSession (x : Extraction) (argv : List Value) (s : Option Session) :
    x.Alike (x.setSession argv s) := by
  unfold setSession
  split <;> exact ⟨rfl, rfl, rfl⟩

theorem alike_perform {α : Type} (x : Extraction) (s : Session) (op : Session → Session × α) :
    x.Alike (x.perform s op).1 := by
  unfold perform
  dsimp only
  split <;> exact ⟨rfl, rfl, rfl⟩

@[simp] theorem snd_perform {α : Type} (x : Extraction) (s : Session)
    (op : Session → Session × α) : (x.perform s op).2 = op { s with log := [] } := by
  unfold perform
  dsimp only
  split <;> rfl

/-- The session that a launch starts. -/
def newSession (x : Extraction) (language : String) (argv : List Value) (script : Script) :
    Session :=
  { command := argv, root := x.root, languageId := language, script }

theorem alike_launch (x : Extraction) (language : String) (argv : List Value) (script : Script) :
    x.Alike (x.launch language argv script).1 := by
  have hperform := alike_perform x (x.newSession language argv script) Session.start
  unfold launch
  dsimp only
  split
  next z s heq =>
    have hz : x.Alike z := by simpa only [newSession, heq] using hperform
    exact hz.trans (alike_setSession z argv (some s))
  next z s e heq =>
    have hz : x.Alike z := by simpa only [newSession, heq] using hperform
    split
    · exact hz.trans (alike_setSession z argv none)
    · exact hz
  next z s f _ heq => simpa only [newSession, heq] using hperform

/-- What a launch comes to, by what the start of its session came to. -/
theorem snd_launch (x : Extraction) (language : String) (argv : List Value) (script : Script) :
    (x.launch language argv script).2 =
      match (x.newSession language argv script).start.2 with
      | none => .ok (some argv)
      | some (.link e) => if isStartError e then .ok none else .error (.session (.link e))
      | some f => .error (.session f) := by
  have hstart : (x.perform (x.newSession language argv script) Session.start).2 =
      (x.newSession language argv script).start := snd_perform x _ _
  unfold launch
  dsimp only
  split
  next z s heq =>
    simp only [newSession, heq] at hstart
    simp only [newSession, ← hstart]
  next z s e heq =>
    simp only [newSession, heq] at hstart
    simp only [newSession, ← hstart]
    exact apply_ite Prod.snd _ _ _
  next z s f hno heq =>
    simp only [newSession, heq] at hstart
    simp only [newSession, ← hstart]

/-- Whether a session for a command line has been tried. -/
def knows (x : Extraction) (argv : List Value) : Bool :=
  x.clients.any fun c => sameArgv c.argv argv

/-- A server is set up for a language, with a command line that can be looked up. -/
structure Wants (x : Extraction) (language : String) (config : ServerConfig) : Prop where
  setUp : x.servers.get? language = some config
  enabled : config.enabled = true
  plain : config.argv.all isPlain = true

/-- A server that is installed is to be started for a language. -/
structure Launches (x : Extraction) (language : String) (config : ServerConfig)
    (script : Script) : Prop extends x.Wants language config where
  new : x.knows config.argv = false
  installed : x.programs config.command = .ok (some script)

/-- There is no server for a language. -/
inductive Unavailable (x : Extraction) (language : String) : Prop
  | unset (h : x.servers.get? language = none)
  | disabled {config : ServerConfig} (h : x.servers.get? language = some config)
    (hoff : config.enabled = false)
  /-- It could not be started before, or its session is no longer ready. -/
  | spent {config : ServerConfig} (h : x.Wants language config)
    (hknown : x.knows config.argv = true)
    (hready : ∀ s, x.session? config.argv = some s → s.isReady = false)
  | missing {config : ServerConfig} (h : x.Wants language config)
    (hnew : x.knows config.argv = false) (hcommand : x.programs config.command = .ok none)
  /-- It does not start, and says so by an error of the start. -/
  | unstarted {config : ServerConfig} {script : Script} {e : LinkError}
    (h : x.Launches language config script)
    (hstart : (x.newSession language config.argv script).start.2 = some (.link e))
    (he : isStartError e = true)

/-- The server of a language cannot be dealt with. -/
inductive Breaks (x : Extraction) (language : String) : Prop
  /-- Its command line holds a list or a record, so it cannot be looked up. -/
  | commandLine {config : ServerConfig} (h : x.servers.get? language = some config)
    (hon : config.enabled = true) (hplain : config.argv.all isPlain = false)
  /-- The system cannot look for its command. -/
  | command {config : ServerConfig} {f : LineFault} (h : x.Wants language config)
    (hnew : x.knows config.argv = false) (hcommand : x.programs config.command = .error f)
  /-- Its start does not end as it should. -/
  | start {config : ServerConfig} {script : Script} (h : x.Launches language config script)
    (hstumbles : (x.newSession language config.argv script).Stumbles)

theorem Wants.clientFor {x : Extraction} {language : String} {config : ServerConfig}
    (h : x.Wants language config) :
    x.clientFor language =
      if x.knows config.argv then
        (x, .ok (if ((x.session? config.argv).map Session.isReady).getD false then
          some config.argv else none))
      else
        match x.programs config.command with
        | .ok (some script) => x.launch language config.argv script
        | .ok none => (x.setSession config.argv none, .ok none)
        | .error f => (x, .error (.session (.line f))) := by
  unfold Extraction.clientFor
  rw [h.setUp]
  dsimp only
  rw [h.enabled, h.plain]
  rfl

theorem Launches.clientFor {x : Extraction} {language : String} {config : ServerConfig}
    {script : Script} (h : x.Launches language config script) :
    x.clientFor language = x.launch language config.argv script := by
  rw [h.toWants.clientFor, h.new, if_neg Bool.false_ne_true, h.installed]

theorem Unavailable.clientFor {x : Extraction} {language : String} (h : x.Unavailable language) :
    (x.clientFor language).2 = .ok none := by
  cases h with
  | unset h => rw [Extraction.clientFor, h]
  | disabled h hoff =>
    rw [Extraction.clientFor, h]
    dsimp only
    rw [hoff]
    rfl
  | spent h hknown hready =>
    rw [h.clientFor, if_pos hknown]
    cases hs : x.session? _ with
    | none => rfl
    | some s => simp [hready s hs]
  | missing h hnew hcommand =>
    rw [h.clientFor, hnew, if_neg Bool.false_ne_true, hcommand]
  | unstarted h hstart he =>
    rw [h.clientFor, snd_launch, hstart]
    simp [he]

theorem Breaks.clientFor {x : Extraction} {language : String} (h : x.Breaks language) :
    ∃ c, (x.clientFor language).2 = .error c := by
  cases h with
  | commandLine h hon hplain =>
    refine ⟨.badCommandLine, ?_⟩
    rw [Extraction.clientFor, h]
    dsimp only
    rw [hon, hplain]
    rfl
  | @command config f h hnew hcommand =>
    refine ⟨.session (.line f), ?_⟩
    rw [h.clientFor, hnew, if_neg Bool.false_ne_true, hcommand]
  | start h hstumbles =>
    obtain ⟨-, f, hf, hno⟩ := hstumbles.stranded rfl
    rw [h.clientFor, snd_launch, hf]
    cases f with
    | link e => exact ⟨.session (.link e), by simp [hno e rfl]⟩
    | noRecord | unbounded | longNumber | impossiblePath | line => exact ⟨_, rfl⟩

/-- A launch leaves a server that can be asked, or one that is unavailable, or ends the run. -/
theorem Launches.clientFor_cases {x : Extraction} {language : String} {config : ServerConfig}
    {script : Script} (h : x.Launches language config script) :
    x.Unavailable language ∨ x.Breaks language ∨
    ∃ argv, (x.clientFor language).2 = .ok (some argv) := by
  have hstart := Session.endsWell_or_stumbles
    (s := x.newSession language config.argv script) rfl rfl rfl
  rcases hstart with hwell | hstumbles
  · rw [h.clientFor, snd_launch]
    generalize hstart : (x.newSession language config.argv script).start = r at hwell
    cases hwell with
    | ready => exact .inr (.inr ⟨config.argv, rfl⟩)
    | refused he => exact .inl (.unstarted h (congrArg Prod.snd hstart) he)
  · exact .inr (.inl (.start h hstumbles))

theorem Wants.clientFor_cases {x : Extraction} {language : String} {config : ServerConfig}
    (h : x.Wants language config) :
    x.Unavailable language ∨ x.Breaks language ∨
    ∃ argv, (x.clientFor language).2 = .ok (some argv) := by
  cases hknown : x.knows config.argv with
  | true =>
    cases hready : ((x.session? config.argv).map Session.isReady).getD false with
    | true =>
      refine .inr (.inr ⟨config.argv, ?_⟩)
      rw [h.clientFor, if_pos hknown, hready]
      rfl
    | false =>
      refine .inl (.spent h hknown fun s hs => ?_)
      simpa [hs] using hready
  | false =>
    cases hcommand : x.programs config.command with
    | error f => exact .inr (.inl (.command h hknown hcommand))
    | ok program =>
      cases program with
      | none => exact .inl (.missing h hknown hcommand)
      | some script =>
        have hlaunches : x.Launches language config script := ⟨h, hknown, hcommand⟩
        exact hlaunches.clientFor_cases

/-- The server of a language is unavailable, cannot be dealt with, or can be asked. -/
theorem clientFor_cases (x : Extraction) (language : String) :
    x.Unavailable language ∨ x.Breaks language ∨
    ∃ argv, (x.clientFor language).2 = .ok (some argv) := by
  cases hconfig : x.servers.get? language with
  | none => exact .inl (.unset hconfig)
  | some config =>
    cases hon : config.enabled with
    | false => exact .inl (.disabled hconfig hon)
    | true =>
      cases hplain : config.argv.all isPlain with
      | false => exact .inr (.inl (.commandLine hconfig hon hplain))
      | true =>
        have hwants : x.Wants language config := ⟨hconfig, hon, hplain⟩
        exact hwants.clientFor_cases

theorem alike_clientFor (x : Extraction) (language : String) :
    x.Alike (x.clientFor language).1 := by
  unfold clientFor
  split
  · exact .refl x
  · split
    · exact .refl x
    · split
      · exact .refl x
      · split
        · exact .refl x
        · split
          · exact alike_launch x language _ _
          · exact alike_setSession x _ none
          · exact .refl x

theorem alike_fetch (x : Extraction) (argv : List Value) (path : Path) (text : List Char) :
    x.Alike (x.fetch argv path text).1 := by
  unfold fetch
  split
  · exact .refl x
  · dsimp only
    exact (alike_perform x _ _).trans (alike_setSession _ _ _)

end CodeAtlas.Extraction

namespace CodeAtlas.Server.Session

/-- A message that is only sent fails by an error of the link. -/
theorem exists_link_of_sent {r : Session × Option LinkError} {f : Failure}
    (h : (sent r).2 = .error f) : ∃ e, f = .link e := by
  obtain ⟨s, e⟩ := r
  cases e with
  | none => cases h
  | some e => exact ⟨e, (Except.error.inj h).symm⟩

theorem exists_link_of_whenReady {α : Type} {s : Session}
    {act : Session → Session × Except Failure α} {f : Failure}
    (hact : (act s).2 = .error f → ∃ e, f = .link e) (h : (s.whenReady act).2 = .error f) :
    ∃ e, f = .link e := by
  unfold whenReady at h
  split at h
  · exact hact h
  · exact ⟨_, (Except.error.inj h).symm⟩

/-- An outline is refused by an error of the link, unless it has a position that no number can
hold, or a number in the place of a name that cannot be quoted. -/
theorem outline_error {s : Session} {uri : String} {f : Failure}
    (h : (s.outline uri).2 = .error f) :
    (∃ e, f = .link e) ∨ f = .unbounded ∨ f = .longNumber := by
  have hrequest : ∀ g, (s.requestOutline uri).2 = .error g → ∃ e, g = .link e := by
    intro g
    refine exists_link_of_whenReady fun hact => ?_
    split at hact
    · cases hact
    · exact ⟨_, (Except.error.inj hact).symm⟩
  unfold outline at h
  split at h
  next t g heq =>
    obtain rfl : g = f := Except.error.inj h
    exact .inl (hrequest g (congrArg Prod.snd heq))
  next t id heq =>
    dsimp only at h
    unfold outlineOf at h
    split at h
    · exact .inl ⟨_, (Except.error.inj h).symm⟩
    · split at h
      · cases h
      · exact .inl ⟨_, (Except.error.inj h).symm⟩
      · exact .inl ⟨_, (Except.error.inj h).symm⟩
      · exact .inr (.inl (Except.error.inj h).symm)
      · exact .inr (.inr (Except.error.inj h).symm)

theorem fetchOutline_error {s : Session} {path : Path} {text languageId : String} {f : Failure}
    (h : (s.fetchOutline path text languageId).2 = .error f) (hpath : path.isPossible = true) :
    (∃ e, f = .link e) ∨ f = .unbounded ∨ f = .longNumber := by
  unfold fetchOutline at h
  have huri : path.uri? = some path.uri := if_pos hpath
  rw [huri] at h
  dsimp only at h
  split at h
  next t g heq =>
    obtain rfl : g = f := Except.error.inj h
    exact .inl (exists_link_of_whenReady exists_link_of_sent (congrArg Prod.snd heq))
  next => exact outline_error h

end CodeAtlas.Server.Session

namespace CodeAtlas.Extraction

open Server

/-- The outline of a file is not to be had: the server refuses it, or it is empty. -/
def Declines (x : Extraction) (argv : List Value) (path : Path) (text : List Char) : Prop :=
  (∃ e, (x.fetch argv path text).2 = .error (.link e)) ∨ (x.fetch argv path text).2 = .ok []

/-- What an outline makes of a file. -/
def outlined (x : Extraction) (file language : String) (source : SourceFile)
    (outline : List Outline) : Except Crash FileResult :=
  if Language.isInfrastructure language then manifestBy file source.text outline
  else x.findingsBy file language source.text source.tree outline

/-- The outline of a file has a position that no number can hold or a number for a name that cannot
be quoted, or something in what it makes of the file cannot be written or walked. -/
def Garbles (x : Extraction) (argv : List Value) (path : Path) (file language : String)
    (source : SourceFile) : Prop :=
  (x.fetch argv path source.text).2 = .error .unbounded ∨
  (x.fetch argv path source.text).2 = .error .longNumber ∨
  ∃ outline c, outline ≠ [] ∧ (x.fetch argv path source.text).2 = .ok outline ∧
    x.outlined file language source outline = .error c

/-- The outline of a file makes something of it. -/
def Outlines (x : Extraction) (argv : List Value) (path : Path) (file language : String)
    (source : SourceFile) (r : FileResult) : Prop :=
  ∃ outline, outline ≠ [] ∧ (x.fetch argv path source.text).2 = .ok outline ∧
    x.outlined file language source outline = .ok r

theorem snd_fetch {x : Extraction} {argv : List Value} {s : Session}
    (h : x.session? argv = some s) (path : Path) (text : List Char) :
    (x.fetch argv path text).2 =
      ({ s with log := [] }.fetchOutline path (String.ofList text)
        ((Language.serverId? path).getD s.languageId)).2 := by
  rw [fetch, h]
  exact congrArg Prod.snd (snd_perform x s _)

theorem fetch_error {x : Extraction} {argv : List Value} {path : Path} {text : List Char}
    {f : Failure} (h : (x.fetch argv path text).2 = .error f) (hpath : path.isPossible = true) :
    (∃ e, f = .link e) ∨ f = .unbounded ∨ f = .longNumber := by
  cases hsession : x.session? argv with
  | none =>
    rw [fetch, hsession] at h
    exact .inl ⟨_, (Except.error.inj h).symm⟩
  | some s =>
    rw [snd_fetch hsession] at h
    exact Session.fetchOutline_error h hpath

theorem fetch_cases (x : Extraction) (argv : List Value) {path : Path} (file language : String)
    (source : SourceFile) (hpath : path.isPossible = true) :
    x.Declines argv path source.text ∨ x.Garbles argv path file language source ∨
    ∃ r, x.Outlines argv path file language source r := by
  cases hfetch : (x.fetch argv path source.text).2 with
  | error f =>
    rcases fetch_error hfetch hpath with ⟨e, rfl⟩ | rfl | rfl
    · exact .inl (.inl ⟨e, hfetch⟩)
    · exact .inr (.inl (.inl hfetch))
    · exact .inr (.inl (.inr (.inl hfetch)))
  | ok outline =>
    by_cases hne : outline = []
    · subst hne
      exact .inl (.inr hfetch)
    · cases hread : x.outlined file language source outline with
      | error c => exact .inr (.inl (.inr (.inr ⟨outline, c, hne, hfetch, hread⟩)))
      | ok r => exact .inr (.inr ⟨r, outline, hne, hfetch, hread⟩)

/-- The library can read files of a language alone. -/
def Reads (x : Extraction) (language : String) : Prop :=
  Language.isInfrastructure language = true ∨ x.grammars.supports language = true

/-- What the library makes of a file alone. -/
def ownResult (file language : String) (source : SourceFile) : FileResult :=
  if Language.isInfrastructure language then .infrastructure (.ofText source.text file)
  else .code (Tree.findings (.ofText file language source.text) source.tree)

/-- A file is read by its tree, which is too deep to be walked. -/
def isTooDeep (x : Extraction) (language : String) (source : SourceFile) : Bool :=
  !Language.isInfrastructure language && x.grammars.supports language &&
    !x.grammars.walks source.tree

/-- What comes of a file when the library reads it alone. -/
def ownOutcome (x : Extraction) (file language : String) (source : SourceFile) :
    Except Crash FileResult :=
  if x.isTooDeep language source then .error .deepTree else .ok (ownResult file language source)

/-- The strategy that needs no server. -/
def ownStrategy (x : Extraction) (file language : String) (source : SourceFile) :
    Strategy Extraction Crash :=
  if Language.isInfrastructure language then .blockText file source.text
  else .tree x.grammars .deepTree file language source.text source.tree

/-- The strategy that asks a server. -/
def askStrategy (x : Extraction) (argv : List Value) (path : Path) (file language : String)
    (source : SourceFile) : Strategy Extraction Crash :=
  serverStrategy (if Language.isInfrastructure language then "terraform-ls" else "lsp")
    (if Language.isInfrastructure language then "blocks" else "symbols") argv path file source.text
    (x.outlined file language source)

theorem strategies_eq (x : Extraction) (server : Option (List Value)) (path : Path)
    (file language : String) (source : SourceFile) :
    x.strategies server path file language source.text source.tree =
      (server.map fun argv => x.askStrategy argv path file language source).toList ++
        [x.ownStrategy file language source] := by
  have houtlined : x.outlined file language source =
      if Language.isInfrastructure language then manifestBy file source.text
      else x.findingsBy file language source.text source.tree := by
    funext outline
    unfold outlined
    split <;> rfl
  unfold strategies askStrategy ownStrategy
  rw [houtlined]
  cases Language.isInfrastructure language <;> rfl

theorem findings_of_supports {x : Extraction} {language : String}
    (h : x.grammars.supports language = true) (file : String) (source : SourceFile) :
    x.grammars.findings file language source.text source.tree =
      if x.grammars.walks source.tree then
        some (Tree.findings (.ofText file language source.text) source.tree)
      else none := by
  have hload : x.grammars.loadError? language = none := Option.isNone_iff_eq_none.mp h
  rw [Grammars.findings, hload]

/-- The last strategy leaves the state as it is, and comes to what the library makes of the file
alone. -/
theorem tryAll_ownStrategy_of_reads {x : Extraction} {language : String} (h : x.Reads language)
    (z : Extraction) (file : String) (source : SourceFile) (refusals : List String) :
    Strategy.tryAll file language [x.ownStrategy file language source] refusals z =
      (z, x.ownOutcome file language source) := by
  unfold ownStrategy ownOutcome isTooDeep ownResult
  cases hinfra : Language.isInfrastructure language with
  | true => rfl
  | false =>
    have hsupports : x.grammars.supports language = true := by simpa [Reads, hinfra] using h
    have hfindings := findings_of_supports hsupports file source
    simp only [Strategy.tryAll, Strategy.tree, hsupports, hfindings]
    cases x.grammars.walks source.tree <;> rfl

theorem tryAll_ownStrategy_of_not_reads {x : Extraction} {language : String}
    (h : ¬x.Reads language) (z : Extraction) (file : String) (source : SourceFile)
    (refusals : List String) :
    ∃ error, Strategy.tryAll file language [x.ownStrategy file language source] refusals z =
      (z, .ok (.failed file language error)) := by
  obtain ⟨hinfra, hsupports⟩ := not_or.mp h
  simp only [ownStrategy, hinfra, Strategy.tryAll, Strategy.tree, hsupports]
  exact ⟨_, rfl⟩

theorem run_askStrategy_of_declines {z : Extraction} {argv : List Value} {path : Path}
    {source : SourceFile} (h : z.Declines argv path source.text) (file language : String) :
    ∃ w reason, z.Alike w ∧
      (z.askStrategy argv path file language source).run z = (w, .refusal reason) := by
  have halike := alike_fetch z argv path source.text
  unfold Declines at h
  unfold askStrategy serverStrategy
  dsimp only
  generalize z.fetch argv path source.text = fetched at h halike ⊢
  obtain ⟨w, res⟩ := fetched
  dsimp only at h
  rcases h with ⟨e, rfl⟩ | rfl
  all_goals exact ⟨w, _, halike, rfl⟩

theorem run_askStrategy_of_garbles {z : Extraction} {argv : List Value} {path : Path}
    {file language : String} {source : SourceFile}
    (h : z.Garbles argv path file language source) :
    ∃ w c, z.Alike w ∧
      (z.askStrategy argv path file language source).run z = (w, .crash c) := by
  have halike := alike_fetch z argv path source.text
  unfold Garbles at h
  unfold askStrategy serverStrategy
  dsimp only
  generalize z.fetch argv path source.text = fetched at h halike ⊢
  obtain ⟨w, res⟩ := fetched
  dsimp only at h
  rcases h with rfl | rfl | ⟨outline, c, hne, rfl, hread⟩
  · exact ⟨w, _, halike, rfl⟩
  · exact ⟨w, _, halike, rfl⟩
  · obtain ⟨o, more, rfl⟩ := List.exists_cons_of_ne_nil hne
    refine ⟨w, c, halike, ?_⟩
    dsimp only
    rw [hread]

theorem run_askStrategy_of_outlines {z : Extraction} {argv : List Value} {path : Path}
    {file language : String} {source : SourceFile} {r : FileResult}
    (h : z.Outlines argv path file language source r) :
    ∃ w, z.Alike w ∧
      (z.askStrategy argv path file language source).run z = (w, .success r) := by
  have halike := alike_fetch z argv path source.text
  unfold Outlines at h
  unfold askStrategy serverStrategy
  dsimp only
  generalize z.fetch argv path source.text = fetched at h halike ⊢
  obtain ⟨w, res⟩ := fetched
  dsimp only at h
  obtain ⟨outline, hne, rfl, hread⟩ := h
  obtain ⟨o, more, rfl⟩ := List.exists_cons_of_ne_nil hne
  refine ⟨w, halike, ?_⟩
  dsimp only
  rw [hread]

/-- The name that a file goes by, if it is below the project. -/
def nameOf? (x : Extraction) (path : Path) : Option String :=
  (if path.isAbsolute then path.relativeTo? x.root else some path).map Path.text

/-- A path that a file of the project can have, and the name that the file goes by. -/
structure Locates (x : Extraction) (path : Path) (file : String) : Prop where
  name : x.nameOf? path = some file
  possible : (x.root.join path).isPossible = true

/-- The file at a path has content that can be read. -/
def Opens (x : Extraction) (path : Path) (source : SourceFile) : Prop :=
  x.files.open? (x.root.join path) = .ok source

theorem Locates.path_isPossible {x : Extraction} {path : Path} {file : String}
    (h : x.Locates path file) : path.isPossible = true := by
  have hjoin := h.possible
  unfold Path.join at hjoin
  split at hjoin
  · exact hjoin
  · unfold Path.isPossible at hjoin ⊢
    rw [List.all_append, Bool.and_eq_true] at hjoin
    exact hjoin.2

theorem Alike.nameOf? {x z : Extraction} (h : x.Alike z) (path : Path) :
    z.nameOf? path = x.nameOf? path := by
  rw [Extraction.nameOf?, Extraction.nameOf?, h.root]

theorem Locates.alike {x z : Extraction} {path : Path} {file : String} (h : x.Locates path file)
    (hz : x.Alike z) : z.Locates path file :=
  ⟨(hz.nameOf? path).trans h.name, hz.root ▸ h.possible⟩

theorem extractFile_of_fault {x : Extraction} {path : Path} {file : String}
    (h : x.Locates path file) (language : String) {fault : FileTree.Fault}
    (hopen : x.files.open? (x.root.join path) = .error fault) :
    x.extractFile path language =
      (x, .ok (.failed file language (unreadable fault (x.root.join path)))) := by
  obtain ⟨hname, hpossible⟩ := h
  obtain ⟨relative, hrelative, rfl⟩ := Option.map_eq_some_iff.mp hname
  unfold extractFile
  rw [hrelative]
  dsimp only
  rw [hpossible, if_pos rfl, hopen]

/-- Once a file has been read, its server is looked up, and then its strategies are tried. -/
theorem extractFile_of_opens {x : Extraction} {path : Path} {file : String}
    (h : x.Locates path file) (language : String) {source : SourceFile}
    (hopen : x.Opens path source) :
    x.extractFile path language =
      match if x.useServers then x.clientFor language else (x, .ok none) with
      | (z, .error c) => (z, .error c)
      | (z, .ok server) =>
        Strategy.tryAll file language
          ((server.map fun argv => z.askStrategy argv path file language source).toList ++
            [z.ownStrategy file language source]) [] z := by
  obtain ⟨hname, hpossible⟩ := h
  obtain ⟨relative, hrelative, rfl⟩ := Option.map_eq_some_iff.mp hname
  have hok : x.files.open? (x.root.join path) = .ok source := hopen
  unfold extractFile
  rw [hrelative]
  dsimp only
  rw [hpossible, if_pos rfl, hok]
  dsimp only
  generalize (if x.useServers then x.clientFor language else (x, .ok none)) = looked
  obtain ⟨z, c | server⟩ := looked
  · rfl
  · dsimp only
    rw [strategies_eq]

theorem extractFile_of_asked {x z : Extraction} {path : Path} {file language : String}
    (h : x.Locates path file) {source : SourceFile} (hopen : x.Opens path source)
    (huse : x.useServers = true) {argv : List Value}
    (hclient : x.clientFor language = (z, .ok (some argv))) :
    x.extractFile path language =
      Strategy.tryAll file language [z.askStrategy argv path file language source,
        z.ownStrategy file language source] [] z := by
  rw [extractFile_of_opens h language hopen, if_pos huse, hclient]
  rfl

theorem extractFile_of_error {x : Extraction} {path : Path} {file language : String}
    (h : x.Locates path file) {source : SourceFile} (hopen : x.Opens path source)
    (huse : x.useServers = true) {c : Crash} (hc : (x.clientFor language).2 = .error c) :
    x.extractFile path language = ((x.clientFor language).1, .error c) := by
  have hclient : x.clientFor language = ((x.clientFor language).1, .error c) := Prod.ext rfl hc
  rw [extractFile_of_opens h language hopen, if_pos huse, hclient]

/-- No server helps with a file. -/
inductive Unaided (x : Extraction) (path : Path) (language : String) (text : List Char) : Prop
  | off (huse : x.useServers = false)
  | unavailable (hunavailable : x.Unavailable language)
  | declined {z : Extraction} {argv : List Value}
    (hclient : x.clientFor language = (z, .ok (some argv))) (hdeclines : z.Declines argv path text)

/-- A file that no server helps with comes to the strategy that needs none. -/
theorem Unaided.extractFile {x : Extraction} {path : Path} {file language : String}
    {source : SourceFile} (hunaided : x.Unaided path language source.text)
    (h : x.Locates path file) (hopen : x.Opens path source) :
    ∃ z w refusals, x.Alike z ∧ x.Alike w ∧ x.extractFile path language =
      Strategy.tryAll file language [z.ownStrategy file language source] refusals w := by
  -- without a command line to ask, there is only one strategy
  have halone : ∀ z, x.Alike z →
      (if x.useServers then x.clientFor language else (x, .ok none)) = (z, .ok none) →
      ∃ z w refusals, x.Alike z ∧ x.Alike w ∧ x.extractFile path language =
        Strategy.tryAll file language [z.ownStrategy file language source] refusals w := by
    intro z hz hserver
    refine ⟨z, z, [], hz, hz, ?_⟩
    rw [extractFile_of_opens h language hopen, hserver]
    rfl
  cases huse : x.useServers with
  | false => exact halone x (.refl x) (by rw [huse]; rfl)
  | true =>
    cases hunaided with
    | off hoff => cases huse.symm.trans hoff
    | unavailable hunavailable =>
      refine halone _ (alike_clientFor x language) ?_
      rw [if_pos huse]
      exact Prod.ext rfl hunavailable.clientFor
    | @declined z argv hclient hdeclines =>
      have hz : x.Alike z := by simpa only [hclient] using alike_clientFor x language
      obtain ⟨w, reason, hw, hrun⟩ := run_askStrategy_of_declines hdeclines file language
      refine ⟨z, w, [(z.askStrategy argv path file language source).name ++ ": " ++ reason],
        hz, hz.trans hw, ?_⟩
      rw [extractFile_of_asked h hopen huse hclient, Strategy.tryAll, hrun]
      rfl

/-- What ends a run at a file that can be read: its server cannot be dealt with, or gives an outline
that cannot be made use of, or no server helps and its tree is too deep. -/
inductive Derails (x : Extraction) (path : Path) (file language : String) : Prop
  | server {source : SourceFile} (hopen : x.Opens path source) (huse : x.useServers = true)
    (hbreaks : x.Breaks language)
  | outline {source : SourceFile} {z : Extraction} {argv : List Value}
    (hopen : x.Opens path source) (huse : x.useServers = true)
    (hclient : x.clientFor language = (z, .ok (some argv)))
    (hgarbles : z.Garbles argv path file language source)
  | tree {source : SourceFile} (hopen : x.Opens path source)
    (hunaided : x.Unaided path language source.text)
    (hdeep : x.isTooDeep language source = true)

/-- What a file yields when it does not end the run. -/
inductive Yields (x : Extraction) (path : Path) (file language : String) : FileResult → Prop
  | unreadable {fault : FileTree.Fault}
    (hopen : x.files.open? (x.root.join path) = .error fault) :
    x.Yields path file language
      (.failed file language (CodeAtlas.unreadable fault (x.root.join path)))
  | server {source : SourceFile} {z : Extraction} {argv : List Value} {r : FileResult}
    (hopen : x.Opens path source) (huse : x.useServers = true)
    (hclient : x.clientFor language = (z, .ok (some argv)))
    (houtlines : z.Outlines argv path file language source r) : x.Yields path file language r
  | own {source : SourceFile} (hopen : x.Opens path source)
    (hunaided : x.Unaided path language source.text) (hreads : x.Reads language)
    (hdepth : x.isTooDeep language source = false) :
    x.Yields path file language (ownResult file language source)
  | failed {source : SourceFile} (hopen : x.Opens path source)
    (hunaided : x.Unaided path language source.text) (hreads : ¬x.Reads language)
    (error : String) : x.Yields path file language (.failed file language error)

theorem Alike.ownOutcome {x z : Extraction} (h : x.Alike z) (file language : String)
    (source : SourceFile) :
    z.ownOutcome file language source = x.ownOutcome file language source := by
  rw [Extraction.ownOutcome, Extraction.ownOutcome, isTooDeep, isTooDeep, h.grammars]

theorem Alike.reads_iff {x z : Extraction} (h : x.Alike z) (language : String) :
    z.Reads language ↔ x.Reads language := by
  rw [Reads, Reads, h.grammars]

theorem reads_of_isTooDeep {x : Extraction} {language : String} {source : SourceFile}
    (h : x.isTooDeep language source = true) : x.Reads language := by
  unfold isTooDeep at h
  rw [Bool.and_eq_true, Bool.and_eq_true] at h
  exact .inr h.1.2

/-- A file that no server helps with comes to what the library makes of it, if it can read it. -/
theorem Unaided.extractFile_of_reads {x : Extraction} {path : Path} {file language : String}
    {source : SourceFile} (hunaided : x.Unaided path language source.text)
    (h : x.Locates path file) (hopen : x.Opens path source) (hreads : x.Reads language) :
    ∃ w, x.Alike w ∧ x.extractFile path language = (w, x.ownOutcome file language source) := by
  obtain ⟨z, w, refusals, hz, hw, heq⟩ := hunaided.extractFile h hopen
  refine ⟨w, hw, heq.trans ?_⟩
  rw [tryAll_ownStrategy_of_reads ((hz.reads_iff language).mpr hreads), hz.ownOutcome]

theorem Unaided.extractFile_of_not_reads {x : Extraction} {path : Path}
    {file language : String} {source : SourceFile}
    (hunaided : x.Unaided path language source.text) (h : x.Locates path file)
    (hopen : x.Opens path source) (hreads : ¬x.Reads language) :
    ∃ w error, x.Alike w ∧
      x.extractFile path language = (w, .ok (.failed file language error)) := by
  obtain ⟨z, w, refusals, hz, hw, heq⟩ := hunaided.extractFile h hopen
  obtain ⟨error, herror⟩ := tryAll_ownStrategy_of_not_reads
    (mt (hz.reads_iff language).mp hreads) w file source refusals
  exact ⟨w, error, hw, heq.trans herror⟩

/-- A file that no server helps with has a tree that is too deep, or yields what it should. -/
theorem Unaided.extractFile_cases {x : Extraction} {path : Path} {file language : String}
    {source : SourceFile} (hunaided : x.Unaided path language source.text)
    (h : x.Locates path file) (hopen : x.Opens path source) :
    ∃ z, x.Alike z ∧
      ((∃ c, x.extractFile path language = (z, .error c) ∧ x.Derails path file language) ∨
      ∃ r, x.extractFile path language = (z, .ok r) ∧ x.Yields path file language r) := by
  by_cases hreads : x.Reads language
  · obtain ⟨w, hw, heq⟩ := hunaided.extractFile_of_reads h hopen hreads
    refine ⟨w, hw, ?_⟩
    rw [heq, ownOutcome]
    cases hdepth : x.isTooDeep language source with
    | true => exact .inl ⟨.deepTree, rfl, .tree hopen hunaided hdepth⟩
    | false => exact .inr ⟨_, rfl, .own hopen hunaided hreads hdepth⟩
  · obtain ⟨w, error, hw, heq⟩ := hunaided.extractFile_of_not_reads h hopen hreads
    exact ⟨w, hw, .inr ⟨_, heq, .failed hopen hunaided hreads error⟩⟩

/-- A file ends the run, or yields what it should. -/
theorem extractFile_cases {x : Extraction} {path : Path} {file : String}
    (h : x.Locates path file) (language : String) :
    ∃ z, x.Alike z ∧
      ((∃ c, x.extractFile path language = (z, .error c) ∧ x.Derails path file language) ∨
      ∃ r, x.extractFile path language = (z, .ok r) ∧ x.Yields path file language r) := by
  cases hopen : x.files.open? (x.root.join path) with
  | error fault =>
    exact ⟨x, .refl x, .inr ⟨_, extractFile_of_fault h language hopen, .unreadable hopen⟩⟩
  | ok source =>
    cases huse : x.useServers with
    | false => exact Unaided.extractFile_cases (.off huse) h hopen
    | true =>
      rcases clientFor_cases x language with hunavailable | hbreaks | ⟨argv, hargv⟩
      · exact Unaided.extractFile_cases (.unavailable hunavailable) h hopen
      · obtain ⟨c, hc⟩ := hbreaks.clientFor
        refine ⟨_, alike_clientFor x language, .inl ⟨c, ?_, .server hopen huse hbreaks⟩⟩
        exact extractFile_of_error h hopen huse hc
      · have hclient : x.clientFor language = ((x.clientFor language).1, .ok (some argv)) :=
          Prod.ext rfl hargv
        have hz := alike_clientFor x language
        generalize (x.clientFor language).1 = z at hclient hz
        have heq := extractFile_of_asked h hopen huse hclient
        rcases fetch_cases z argv file language source h.path_isPossible with
          hdeclines | hgarbles | ⟨r, houtlines⟩
        · exact Unaided.extractFile_cases (.declined hclient hdeclines) h hopen
        · obtain ⟨w, c, hw, hrun⟩ := run_askStrategy_of_garbles hgarbles
          rw [Strategy.tryAll, hrun] at heq
          exact ⟨w, hz.trans hw, .inl ⟨c, heq, .outline hopen huse hclient hgarbles⟩⟩
        · obtain ⟨w, hw, hrun⟩ := run_askStrategy_of_outlines houtlines
          rw [Strategy.tryAll, hrun] at heq
          exact ⟨w, hz.trans hw, .inr ⟨r, heq, .server hopen huse hclient houtlines⟩⟩

theorem Derails.extractFile {x : Extraction} {path : Path} {file language : String}
    (hderails : x.Derails path file language) (h : x.Locates path file) :
    ∃ z c, x.extractFile path language = (z, .error c) := by
  cases hderails with
  | server hopen huse hbreaks =>
    obtain ⟨c, hc⟩ := hbreaks.clientFor
    exact ⟨_, c, extractFile_of_error h hopen huse hc⟩
  | outline hopen huse hclient hgarbles =>
    obtain ⟨w, c, -, hrun⟩ := run_askStrategy_of_garbles hgarbles
    have heq := extractFile_of_asked h hopen huse hclient
    rw [Strategy.tryAll, hrun] at heq
    exact ⟨w, c, heq⟩
  | tree hopen hunaided hdeep =>
    obtain ⟨w, -, heq⟩ := hunaided.extractFile_of_reads h hopen (reads_of_isTooDeep hdeep)
    refine ⟨w, .deepTree, ?_⟩
    rw [heq, ownOutcome, if_pos hdeep]

end CodeAtlas.Extraction
