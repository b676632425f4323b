import CodeAtlas.Proofs.Extraction.Clients
import CodeAtlas.Proofs.Extraction.Runs
import CodeAtlas.Proofs.Server.Acts

/-!
# What a run says to its servers

The acts of a run are kept in one list, each with the command line of the server
that it is meant for: a server is started with the first file that needs it, each
file is a visit to its server, and in the end the servers are stopped in turn.
The servers see those acts that reach them, in this order, and of the run
otherwise only answers to their own requests.
-/

namespace CodeAtlas.Extraction

open Server

/-- An act towards the server of a command line. -/
abbrev Turn := List Value × Act

/-- Acts towards one server. -/
def towards (argv : List Value) (acts : List Act) : List Turn := acts.map fun a => (argv, a)

/-- The acts towards the server of a command line. -/
def actsFor (turns : List Turn) (argv : List Value) : List Act :=
  (turns.filter fun t => sameArgv t.1 argv).map Prod.snd

/-- The servers start when the first file of their language is read. -/
def clientTurns (x : Extraction) (language : String) : List Turn :=
  match x.servers.get? language with
  | none => []
  | some config =>
    if !config.enabled then []
    else if !config.argv.all isPlain then []
    else if x.knows config.argv then []
    else
      match x.programs config.command with
      | .ok (some script) =>
        towards config.argv (x.newSession language config.argv script).startActs
      | .ok none | .error _ => []

def fetchTurns (x : Extraction) (argv : List Value) (path : Path) (text : List Char) :
    List Turn :=
  match x.session? argv with
  | none => []
  | some s =>
    towards argv ({ s with log := [] }.fetchActs path (String.ofList text)
      ((Language.serverId? path).getD s.languageId))

/-- The content of a file that is read, if it can be. -/
def source? (x : Extraction) (path : Path) : Option SourceFile :=
  if (x.nameOf? path).isSome ∧ (x.root.join path).isPossible then
    (x.files.open? (x.root.join path)).toOption
  else none

def fileTurns (x : Extraction) (path : Path) (language : String) : List Turn :=
  match x.source? path with
  | none => []
  | some source =>
    if x.useServers then
      x.clientTurns language ++
        match x.clientFor language with
        | (z, .ok (some argv)) => z.fetchTurns argv path source.text
        | _ => []
    else []

def readTurns (x : Extraction) : List Path → List Turn
  | [] => []
  | path :: rest =>
    match Language.ofPath path with
    | none => x.readTurns rest
    | some l =>
      x.fileTurns path l.name ++
        match x.extractFile path l.name with
        | (_, .error _) => []
        | (z, .ok _) => z.readTurns rest

def stopTurns (x : Extraction) (argv : List Value) : List Turn :=
  match x.session? argv with
  | none => []
  | some s => towards argv { s with log := [] }.stopActs

def closeTurns (x : Extraction) : List (List Value) → List Turn
  | [] => []
  | argv :: rest => x.stopTurns argv ++ (x.stopClient argv).closeTurns rest

/-- A run when it has read its files, or has been ended by one. -/
def whenRead (x : Extraction) (paths : List Path) : Extraction :=
  (x.extractAll { index := { root := x.root.text } } paths).1

/-- All acts of a run. There are none where no files can be searched for. -/
def turns (x : Extraction) (languages : List Language) : List Turn :=
  match x.discovered languages with
  | .error _ => []
  | .ok paths =>
    x.readTurns paths ++ (x.whenRead paths).closeTurns ((x.whenRead paths).clients.map Client.argv)

@[simp] theorem actsFor_append (ts us : List Turn) (argv : List Value) :
    actsFor (ts ++ us) argv = actsFor ts argv ++ actsFor us argv := by
  simp [actsFor]

theorem actsFor_towards (argv other : List Value) (acts : List Act) :
    actsFor (towards argv acts) other = if sameArgv argv other then acts else [] := by
  unfold actsFor towards
  rw [List.filter_map, List.map_map]
  split
  next h => simp [Function.comp_def, h]
  next h => simp [Function.comp_def, h]

/-- Looking for a server changes nothing, notes that a command is missing, or launches one that is
not known yet. -/
theorem clientFor_turns_cases (x : Extraction) (language : String) :
    (x.clientTurns language = [] ∧ (x.clientFor language).1 = x) ∨
    (∃ argv, x.knows argv = false ∧ x.clientTurns language = [] ∧
      (x.clientFor language).1 = x.setSession argv none) ∨
    ∃ argv script, x.knows argv = false ∧
      x.clientTurns language = towards argv (x.newSession language argv script).startActs ∧
      x.clientFor language = x.launch language argv script := by
  unfold clientTurns clientFor
  cases x.servers.get? language with
  | none => exact .inl ⟨rfl, rfl⟩
  | some config =>
    dsimp only
    split
    · exact .inl ⟨rfl, rfl⟩
    · split
      · exact .inl ⟨rfl, rfl⟩
      · cases hknown : x.knows config.argv with
        | true =>
          rw [knows] at hknown
          rw [if_pos rfl, if_pos hknown]
          exact .inl ⟨rfl, rfl⟩
        | false =>
          have hnew := hknown
          rw [knows] at hnew
          rw [hnew, if_neg Bool.false_ne_true, if_neg Bool.false_ne_true]
          cases x.programs config.command with
          | error f => exact .inl ⟨rfl, rfl⟩
          | ok program =>
            cases program with
            | none => exact .inr (.inl ⟨_, hknown, rfl, rfl⟩)
            | some script => exact .inr (.inr ⟨_, script, hknown, rfl, rfl⟩)

theorem source?_eq_some_iff {x : Extraction} {path : Path} {source : SourceFile} :
    x.source? path = some source ↔ ∃ file, x.Locates path file ∧ x.Opens path source := by
  unfold source? Opens
  constructor
  · intro h
    split at h
    next hplace =>
      obtain ⟨file, hname⟩ := Option.isSome_iff_exists.mp hplace.1
      cases hopen : x.files.open? (x.root.join path) with
      | error f => rw [hopen] at h; cases h
      | ok found =>
        rw [hopen] at h
        exact ⟨file, ⟨hname, hplace.2⟩, by rw [Option.some.inj h]⟩
    next => cases h
  · rintro ⟨file, ⟨hname, hpossible⟩, hopen⟩
    rw [hname, hopen, if_pos ⟨rfl, hpossible⟩]
    rfl

theorem fst_extractFile_of_source?_eq_none {x : Extraction} {path : Path}
    (h : x.source? path = none) (language : String) : (x.extractFile path language).1 = x := by
  cases hname : x.nameOf? path with
  | none =>
    rw [nameOf?, Option.map_eq_none_iff] at hname
    rw [extractFile, hname]
  | some file =>
    by_cases hpossible : (x.root.join path).isPossible = true
    · have hlocates : x.Locates path file := ⟨hname, hpossible⟩
      cases hopen : x.files.open? (x.root.join path) with
      | error fault => rw [extractFile_of_fault hlocates language hopen]
      | ok source =>
        rw [source?_eq_some_iff.mpr ⟨file, hlocates, hopen⟩] at h
        cases h
    · obtain ⟨relative, hrelative, rfl⟩ := Option.map_eq_some_iff.mp hname
      rw [extractFile, hrelative]
      dsimp only
      rw [if_neg hpossible]

theorem fst_run_askStrategy (x z : Extraction) (argv : List Value) (path : Path)
    (file language : String) (source : SourceFile) :
    ((x.askStrategy argv path file language source).run z).1 =
      (z.fetch argv path source.text).1 := by
  unfold askStrategy serverStrategy
  dsimp only
  generalize z.fetch argv path source.text = fetched
  obtain ⟨w, f | outline⟩ := fetched
  · cases f <;> rfl
  · cases outline with
    | nil => rfl
    | cons o more =>
      dsimp only
      split <;> rfl

theorem fst_tryAll_ownStrategy (x z : Extraction) (file language : String) (source : SourceFile)
    (refusals : List String) :
    (Strategy.tryAll file language [x.ownStrategy file language source] refusals z).1 = z := by
  by_cases hreads : x.Reads language
  · rw [tryAll_ownStrategy_of_reads hreads]
  · obtain ⟨error, herror⟩ := tryAll_ownStrategy_of_not_reads hreads z file source refusals
    rw [herror]

/-- Of the strategies only the one that asks a server changes the state, by asking. -/
theorem fst_tryAll (x z : Extraction) (server : Option (List Value)) (path : Path)
    (file language : String) (source : SourceFile) :
    (Strategy.tryAll file language
      ((server.map fun argv => x.askStrategy argv path file language source).toList ++
        [x.ownStrategy file language source]) [] z).1 =
      match server with
      | none => z
      | some argv => (z.fetch argv path source.text).1 := by
  cases server with
  | none => exact fst_tryAll_ownStrategy x z file language source []
  | some argv =>
    have hasked := fst_run_askStrategy x z argv path file language source
    change (Strategy.tryAll file language [x.askStrategy argv path file language source,
      x.ownStrategy file language source] [] z).1 = (z.fetch argv path source.text).1
    rw [← hasked, Strategy.tryAll]
    cases (x.askStrategy argv path file language source).run z with
    | mk w attempt =>
      cases attempt with
      | success r => rfl
      | crash c => rfl
      | refusal reason => exact fst_tryAll_ownStrategy x w file language source _

/-- Reading a file looks for a server if the file can be read, and asks it if there is one. -/
theorem fst_extractFile {x : Extraction} {path : Path} {source : SourceFile}
    (h : x.source? path = some source) (language : String) :
    (x.extractFile path language).1 =
      match if x.useServers then x.clientFor language else (x, .ok none) with
      | (z, .ok (some argv)) => (z.fetch argv path source.text).1
      | (z, _) => z := by
  obtain ⟨file, hlocates, hopen⟩ := source?_eq_some_iff.mp h
  rw [extractFile_of_opens hlocates language hopen]
  generalize (if x.useServers then x.clientFor language else (x, .ok none)) = looked
  obtain ⟨z, c | server⟩ := looked
  · rfl
  · refine (fst_tryAll z z server path file language source).trans ?_
    cases server <;> rfl

/-- What the servers have seen of the acts of a run. -/
def ownLog (x : Extraction) : List Event := x.log.filter Event.isOwn

/-- What the servers see of acts. -/
def seen (ts : List Turn) : List Event := ts.filterMap fun t => t.2.event?

theorem seen_append (ts us : List Turn) : seen (ts ++ us) = seen ts ++ seen us :=
  List.filterMap_append

theorem seen_towards (argv : List Value) (acts : List Act) :
    seen (towards argv acts) = acts.filterMap Act.event? := by
  rw [seen, towards, List.filterMap_map]
  rfl

theorem ownLog_setSession (x : Extraction) (argv : List Value) (s : Option Session) :
    (x.setSession argv s).ownLog = x.ownLog := by
  unfold setSession
  split <;> rfl

/-- Readers that run give answers at most. -/
theorem ownLog_settleOthers (x : Extraction) (argv : List Value) :
    (x.settleOthers argv).ownLog = x.ownLog := by
  have hsettled : ∀ c : Client, (settleClient c).2.filter Event.isOwn = [] := by
    intro c
    unfold settleClient
    split
    · rfl
    next s _ => exact Session.ownLog_settle { s with log := [] }
  unfold settleOthers ownLog
  rw [List.filter_append, List.flatMap_map, List.filter_flatMap]
  refine (congrArg _ (List.flatMap_eq_nil_iff.mpr ?_)).trans (List.append_nil _)
  intro c _
  split
  · rfl
  · exact hsettled c

theorem ownLog_perform {α : Type} (x : Extraction) (s : Session) (op : Session → Session × α) :
    (x.perform s op).1.ownLog = x.ownLog ++ (op { s with log := [] }).1.ownLog := by
  unfold perform
  generalize op { s with log := [] } = r
  obtain ⟨t, a⟩ := r
  have hsplit : (t.log.takeWhile (· != .pause)).filter Event.isOwn ++
      (t.log.dropWhile (· != .pause)).filter Event.isOwn = t.ownLog := by
    rw [← List.filter_append, List.takeWhile_append_dropWhile]
    rfl
  rw [← hsplit]
  dsimp only
  split
  next hempty =>
    rw [List.isEmpty_iff.mp hempty]
    simp [ownLog]
  next =>
    have hothers := ownLog_settleOthers
      { x with log := x.log ++ t.log.takeWhile (· != .pause) } t.command
    unfold ownLog at hothers ⊢
    dsimp only at hothers ⊢
    rw [List.filter_append, hothers, List.filter_append, List.append_assoc]

theorem ownLog_launch (x : Extraction) (language : String) (argv : List Value)
    (script : Script) :
    (x.launch language argv script).1.ownLog =
      x.ownLog ++ seen (towards argv (x.newSession language argv script).startActs) := by
  obtain ⟨s, z, rfl, rfl, h⟩ := launch_cases x language argv script
  have hperform : (x.perform (x.newSession language argv script) Session.start).1.ownLog =
      x.ownLog ++ seen (towards argv (x.newSession language argv script).startActs) := by
    rw [ownLog_perform, seen_towards]
    exact congrArg _ (Session.ownLog_start (x.newSession language argv script))
  rcases h with ⟨-, h⟩ | h | ⟨c, h⟩
  · rw [h, ownLog_setSession, hperform]
  · rw [h, ownLog_setSession, hperform]
  · rw [h, hperform]

theorem ownLog_clientFor (x : Extraction) (language : String) :
    (x.clientFor language).1.ownLog = x.ownLog ++ seen (x.clientTurns language) := by
  rcases clientFor_turns_cases x language with ⟨hturns, hx⟩ | ⟨argv, -, hturns, hx⟩ |
    ⟨argv, script, -, hturns, hx⟩
  · rw [hturns, hx]
    exact (List.append_nil _).symm
  · rw [hturns, hx, ownLog_setSession]
    exact (List.append_nil _).symm
  · rw [hturns, hx, ownLog_launch]

theorem ownLog_fetch (x : Extraction) (argv : List Value) (path : Path) (text : List Char) :
    (x.fetch argv path text).1.ownLog = x.ownLog ++ seen (x.fetchTurns argv path text) := by
  unfold fetch fetchTurns
  cases x.session? argv with
  | none => exact (List.append_nil _).symm
  | some s =>
    dsimp only
    rw [ownLog_setSession, ownLog_perform, seen_towards]
    exact congrArg _ (Session.ownLog_fetchOutline { s with log := [] } _ _ _)

theorem ownLog_stopClient (x : Extraction) (argv : List Value) :
    (x.stopClient argv).ownLog = x.ownLog ++ seen (x.stopTurns argv) := by
  unfold stopClient stopTurns
  cases x.session? argv with
  | none => exact (List.append_nil _).symm
  | some s =>
    dsimp only
    rw [ownLog_setSession, ownLog_perform, seen_towards]
    exact congrArg _ (Session.ownLog_stop { s with log := [] })

theorem ownLog_extractFile (x : Extraction) (path : Path) (language : String) :
    (x.extractFile path language).1.ownLog = x.ownLog ++ seen (x.fileTurns path language) := by
  unfold fileTurns
  cases hsource : x.source? path with
  | none =>
    rw [fst_extractFile_of_source?_eq_none hsource]
    exact (List.append_nil _).symm
  | some source =>
    rw [fst_extractFile hsource]
    cases x.useServers with
    | false => exact (List.append_nil _).symm
    | true =>
      have hclient := ownLog_clientFor x language
      dsimp only
      rw [if_pos rfl, if_pos rfl, seen_append, ← List.append_assoc, ← hclient]
      obtain ⟨z, c | _ | argv⟩ := x.clientFor language
      · exact (List.append_nil _).symm
      · exact (List.append_nil _).symm
      · exact ownLog_fetch z argv path source.text

theorem ownLog_extractAll (x : Extraction) (y : Yield) (paths : List Path) :
    (x.extractAll y paths).1.ownLog = x.ownLog ++ seen (x.readTurns paths) := by
  induction paths generalizing x y with
  | nil => exact (List.append_nil _).symm
  | cons path rest ih =>
    unfold extractAll readTurns
    cases Language.ofPath path with
    | none => exact ih x y
    | some l =>
      have hfile := ownLog_extractFile x path l.name
      dsimp only
      rw [seen_append, ← List.append_assoc, ← hfile]
      obtain ⟨z, c | r⟩ := x.extractFile path l.name
      · exact (List.append_nil _).symm
      · exact ih z (y.add r)

theorem ownLog_foldl_stopClient (x : Extraction) (argvs : List (List Value)) :
    (argvs.foldl stopClient x).ownLog = x.ownLog ++ seen (x.closeTurns argvs) := by
  induction argvs generalizing x with
  | nil => exact (List.append_nil _).symm
  | cons argv rest ih =>
    rw [List.foldl_cons, ih, ownLog_stopClient, closeTurns, seen_append, List.append_assoc]

/-- The servers see the acts of a run that reach them, in order. -/
theorem ownLog_extract (x : Extraction) (languages : List Language) :
    (x.extract languages).1.ownLog = x.ownLog ++ seen (x.turns languages) := by
  unfold extract turns
  cases x.discovered languages with
  | error f => exact (List.append_nil _).symm
  | ok paths =>
    have hread : (x.whenRead paths).ownLog = _ := ownLog_extractAll x _ paths
    dsimp only
    rw [seen_append, ← List.append_assoc, ← hread]
    exact ownLog_foldl_stopClient _ _

end CodeAtlas.Extraction
