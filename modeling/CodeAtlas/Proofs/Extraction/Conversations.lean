import CodeAtlas.Proofs.Extraction.Clients
import CodeAtlas.Proofs.Extraction.Turns

/-!
# The conversations of a run

A run has one conversation with the server of each command line. It begins with
a greeting, goes through documents one after another in the order in which their
files are read, and ends with a farewell. It breaks off if the greeting does, and
no server is started a second time.
-/

namespace CodeAtlas.Extraction

open Server

/-- What is said about the document of a file. -/
def VisitsFile (path : Path) (acts : List Act) : Prop :=
  ∃ uri, path.uri? = some uri ∧ Visit uri acts

/-- A conversation that can go on: the server has been started once and greeted, and since then
documents of some of the files have been visited, in the order of the files. -/
inductive Underway (argv : List Value) (paths : List Path) : List Act → Prop
  | intro {command : List Value} {directory : String} {greeting : List Act}
    {visited : List Path} {visits : List (List Act)} (hcommand : sameArgv command argv = true)
    (hgreeted : Greeted greeting) (hvisited : visited.Sublist paths)
    (hvisits : List.Forall₂ VisitsFile visited visits) :
    Underway argv paths (.spawn command directory :: greeting ++ visits.flatten)

/-- All that is said to the server of a command line: nothing, a greeting that breaks off, or a
conversation with its farewell. -/
inductive Conversation (argv : List Value) (paths : List Path) : List Act → Prop
  | silent : Conversation argv paths []
  | cut {command : List Value} {directory : String} {greeting : List Act}
    (hcommand : sameArgv command argv = true) (hgreeting : Greeting greeting) :
    Conversation argv paths (.spawn command directory :: greeting)
  | whole {acts farewell : List Act} (hacts : Underway argv paths acts)
    (hfarewell : Farewell farewell) : Conversation argv paths (acts ++ farewell)

theorem Underway.mono {argv : List Value} {paths more : List Path} {acts : List Act}
    (h : Underway argv paths acts) (hmore : paths.Sublist more) : Underway argv more acts := by
  cases h with
  | intro hcommand hgreeted hvisited hvisits =>
    exact .intro hcommand hgreeted (hvisited.trans hmore) hvisits

theorem Conversation.mono {argv : List Value} {paths more : List Path} {acts : List Act}
    (h : Conversation argv paths acts) (hmore : paths.Sublist more) :
    Conversation argv more acts := by
  cases h with
  | silent => exact .silent
  | cut hcommand hgreeting => exact .cut hcommand hgreeting
  | whole hacts hfarewell => exact .whole (hacts.mono hmore) hfarewell

theorem Underway.greeted {command argv : List Value} {greeting : List Act}
    (hcommand : sameArgv command argv = true) (h : Greeted greeting) (directory : String)
    (paths : List Path) : Underway argv paths (.spawn command directory :: greeting) := by
  have hnone : Underway argv paths (.spawn command directory :: greeting ++ [].flatten) :=
    .intro hcommand h (List.nil_sublist paths) .nil
  rwa [List.flatten_nil, List.append_nil] at hnone

theorem Underway.visit {argv : List Value} {paths : List Path} {acts more : List Act}
    (h : Underway argv paths acts) {path : Path} (hvisit : VisitsFile path more) :
    Underway argv (paths ++ [path]) (acts ++ more) := by
  cases h with
  | @intro _ _ _ visited visits hcommand hgreeted hvisited hvisits =>
    have hlast : List.Forall₂ VisitsFile (visited ++ [path]) (visits ++ [more]) :=
      List.rel_append hvisits (.cons hvisit .nil)
    have hsub : (visited ++ [path]).Sublist (paths ++ [path]) := hvisited.append_right _
    simpa using Underway.intro hcommand hgreeted hsub hlast

/-- What has been said to a server, by whether it has a session. -/
def Stage (argv : List Value) (paths : List Path) (going : Bool) (acts : List Act) : Prop :=
  if going then Underway argv paths acts else Conversation argv paths acts

theorem Stage.mono {argv : List Value} {paths more : List Path} {going : Bool} {acts : List Act}
    (h : Stage argv paths going acts) (hmore : paths.Sublist more) :
    Stage argv more going acts := by
  cases going with
  | true => exact Underway.mono h hmore
  | false => exact Conversation.mono h hmore

/-- The sessions of a run and what it has said so far, having come to some of the files. -/
structure Fits (x : Extraction) (paths : List Path) (ts : List Turn) : Prop where
  distinct : x.Distinct
  stage : ∀ argv, Stage argv paths (x.session? argv).isSome (actsFor ts argv)

/-- A run that goes on: nothing has been said to a server that is not known. -/
structure Ongoing (x : Extraction) (paths : List Path) (ts : List Turn) : Prop
    extends x.Fits paths ts where
  fresh : ∀ argv, x.knows argv = false → actsFor ts argv = []

theorem Fits.mono {x : Extraction} {paths more : List Path} {ts : List Turn}
    (h : x.Fits paths ts) (hmore : paths.Sublist more) : x.Fits more ts :=
  ⟨h.distinct, fun argv => (h.stage argv).mono hmore⟩

theorem Ongoing.mono {x : Extraction} {paths more : List Path} {ts : List Turn}
    (h : x.Ongoing paths ts) (hmore : paths.Sublist more) : x.Ongoing more ts :=
  ⟨h.toFits.mono hmore, h.fresh⟩

theorem ongoing_nil {x : Extraction} (h : x.clients = []) : x.Ongoing [] [] := by
  refine ⟨⟨?_, fun argv => ?_⟩, fun argv _ => rfl⟩
  · rw [Distinct, h]
    exact .nil
  · rw [session?, h]
    exact .silent

/-- What a step of a run comes to: the run goes on, or it has been ended and its conversations stay
as they are. -/
inductive Keeps {α : Type} (paths : List Path) (ts : List Turn) :
    Extraction × Except Crash α → Prop
  | ok {x : Extraction} {a : α} (h : x.Ongoing paths ts) : Keeps paths ts (x, .ok a)
  | error {x : Extraction} {c : Crash} (h : x.Fits paths ts) : Keeps paths ts (x, .error c)

theorem Ongoing.keeps {α : Type} {paths : List Path} {ts : List Turn}
    {r : Extraction × Except Crash α} (h : r.1.Ongoing paths ts) : Keeps paths ts r := by
  obtain ⟨x, c | a⟩ := r
  · exact .error h.toFits
  · exact .ok h

/-- When a server becomes known, all that has been said to it is what was said right then. -/
theorem Ongoing.setSession {x z : Extraction} {paths : List Path} {ts : List Turn}
    (h : x.Ongoing paths ts) (hz : z.Distinct)
    (hsessions : ∀ argv, (z.session? argv).isSome = (x.session? argv).isSome)
    (hknows : ∀ argv, z.knows argv = x.knows argv) {argv : List Value}
    (hnew : x.knows argv = false) (s : Option Session) (acts : List Act)
    (hacts : ∀ other, sameArgv argv other = true → Stage other paths s.isSome acts) :
    (z.setSession argv s).Ongoing paths (ts ++ towards argv acts) := by
  refine ⟨⟨hz.setSession argv s, fun other => ?_⟩, fun other hother => ?_⟩
  · rw [session?_setSession, actsFor_append, actsFor_towards]
    cases hsame : sameArgv argv other with
    | true =>
      rw [if_pos rfl, if_pos rfl, h.fresh other (knows_congr x hsame ▸ hnew)]
      exact hacts other hsame
    | false =>
      rw [if_neg Bool.false_ne_true, if_neg Bool.false_ne_true, List.append_nil, hsessions]
      exact h.stage other
  · rw [knows_setSession, Bool.or_eq_false_iff, hknows] at hother
    rw [actsFor_append, actsFor_towards, hother.1, h.fresh other hother.2]
    rfl

theorem Ongoing.launch {x : Extraction} {paths : List Path} {ts : List Turn}
    (h : x.Ongoing paths ts) {argv : List Value} (hnew : x.knows argv = false)
    (language : String) (script : Script) :
    Keeps paths (ts ++ towards argv (x.newSession language argv script).startActs)
      (x.launch language argv script) := by
  obtain ⟨s, z, hs, hz, hcases⟩ := launch_cases x language argv script
  have hcommand : s.command = argv := hs ▸ rfl
  have hbegun := Session.startActs_cases (s := s) (hs ▸ rfl)
  -- However far it gets, all that is said to the server is said by this start.
  have hcut : ∀ other, sameArgv argv other = true → Conversation other paths s.startActs := by
    intro other hsame
    rcases hbegun with ⟨hnone, -⟩ | ⟨greeting, hacts, hgreeting, -⟩
    · rw [hnone]
      exact .silent
    · rw [hacts, hcommand]
      exact .cut hsame hgreeting
  have hdistinct : z.Distinct := hz ▸ h.distinct.perform s Session.start
  have hsessions : ∀ other, (z.session? other).isSome = (x.session? other).isSome :=
    fun other => hz ▸ isSome_session?_perform x s Session.start other
  have hknows : ∀ other, z.knows other = x.knows other :=
    fun other => hz ▸ knows_perform x s Session.start other
  rw [← hs]
  rcases hcases with ⟨hstart, hlaunch⟩ | hlaunch | ⟨c, hlaunch⟩
  · obtain ⟨greeting, hacts, -, hgreeted⟩ := hbegun.resolve_left fun hnone => hnone.2 hstart
    rw [hlaunch, hacts, hcommand]
    exact .ok (h.setSession hdistinct hsessions hknows hnew (some s.start.1) _
      fun other hsame => .greeted hsame (hgreeted hstart) s.root.text paths)
  · rw [hlaunch]
    exact .ok (h.setSession hdistinct hsessions hknows hnew none _ hcut)
  · -- The server stays unknown, so this greeting would not keep the run from starting it again.
    rw [hlaunch]
    refine .error ⟨hdistinct, fun other => ?_⟩
    rw [hsessions, actsFor_append, actsFor_towards]
    cases hsame : sameArgv argv other with
    | true =>
      have hunknown : x.knows other = false := knows_congr x hsame ▸ hnew
      rw [h.fresh other hunknown, session?_eq_none hunknown]
      exact hcut other hsame
    | false =>
      rw [if_neg Bool.false_ne_true, List.append_nil]
      exact h.stage other

theorem Ongoing.clientFor {x : Extraction} {paths : List Path} {ts : List Turn}
    (h : x.Ongoing paths ts) (language : String) :
    Keeps paths (ts ++ x.clientTurns language) (x.clientFor language) := by
  rcases clientFor_turns_cases x language with ⟨hturns, hx⟩ | ⟨argv, hnew, hturns, hx⟩ |
    ⟨argv, script, hnew, hturns, hx⟩
  · refine Ongoing.keeps ?_
    rw [hturns, hx, List.append_nil]
    exact h
  · have hmissing := h.setSession h.distinct (fun _ => rfl) (fun _ => rfl) hnew none []
      fun _ _ => .silent
    refine Ongoing.keeps ?_
    rw [hturns, hx]
    exact hmissing
  · rw [hturns, hx]
    exact h.launch hnew language script

theorem Ongoing.fetch {x : Extraction} {paths : List Path} {ts : List Turn}
    (h : x.Ongoing paths ts) (argv : List Value) (path : Path) (text : List Char) :
    (x.fetch argv path text).1.Ongoing (paths ++ [path])
      (ts ++ x.fetchTurns argv path text) := by
  unfold Extraction.fetch fetchTurns
  cases hs : x.session? argv with
  | none =>
    rw [List.append_nil]
    exact h.mono (List.sublist_append_left _ _)
  | some s =>
    dsimp only
    refine ⟨⟨(h.distinct.perform _ _).setSession _ _, fun other => ?_⟩, fun other hother => ?_⟩
    · rw [isSome_session?_putBack hs, actsFor_append, actsFor_towards]
      have hstage := (h.stage other).mono (List.sublist_append_left paths [path])
      cases hsame : sameArgv argv other with
      | false =>
        rw [if_neg Bool.false_ne_true, List.append_nil]
        exact hstage
      | true =>
        have hgoing : x.session? other = some s := session?_congr x hsame ▸ hs
        have hunderway : Underway other paths (actsFor ts other) := by
          have := h.stage other
          rwa [hgoing] at this
        rw [hgoing] at hstage ⊢
        rw [if_pos rfl]
        rcases Session.fetchActs_eq_nil_or_visit { s with log := [] } path (String.ofList text)
          ((Language.serverId? path).getD s.languageId) with hnil | ⟨uri, huri, hvisit⟩
        · rw [hnil, List.append_nil]
          exact hstage
        · exact hunderway.visit ⟨uri, huri, hvisit⟩
    · rw [knows_putBack hs] at hother
      rw [actsFor_append, actsFor_towards, h.fresh other hother]
      cases hsame : sameArgv argv other with
      | false => rfl
      | true =>
        rw [← knows_congr x hsame, knows_of_session? hs] at hother
        cases hother

/-- A file starts a conversation, or goes on with one by a visit, or leaves all as they are. -/
theorem Ongoing.extractFile {x : Extraction} {paths : List Path} {ts : List Turn}
    (h : x.Ongoing paths ts) (path : Path) (language : String) :
    Keeps (paths ++ [path]) (ts ++ x.fileTurns path language) (x.extractFile path language) := by
  have hmore : paths.Sublist (paths ++ [path]) := List.sublist_append_left _ _
  unfold fileTurns
  cases hsource : x.source? path with
  | none =>
    rw [List.append_nil]
    refine Ongoing.keeps ?_
    rw [fst_extractFile_of_source?_eq_none hsource]
    exact h.mono hmore
  | some source =>
    have hfst := fst_extractFile hsource language
    dsimp only
    cases huse : x.useServers with
    | false =>
      rw [huse] at hfst
      refine Ongoing.keeps ?_
      rw [if_neg Bool.false_ne_true, List.append_nil, hfst]
      exact h.mono hmore
    | true =>
      have hclient := h.clientFor language
      rw [if_pos rfl, ← List.append_assoc]
      rw [huse, if_pos rfl] at hfst
      cases hfound : x.clientFor language with
      | mk z found =>
        rw [hfound] at hfst hclient
        cases hclient with
        | error hz =>
          obtain ⟨file, hlocates, hopen⟩ := source?_eq_some_iff.mp hsource
          rw [extractFile_of_error hlocates hopen huse (congrArg Prod.snd hfound), hfound,
            List.append_nil]
          exact .error (hz.mono hmore)
        | @ok _ server hz =>
          refine Ongoing.keeps ?_
          rw [hfst]
          cases server with
          | none =>
            rw [List.append_nil]
            exact hz.mono hmore
          | some argv => exact hz.fetch argv path source.text

theorem Ongoing.extractAll {x : Extraction} {before : List Path} {ts : List Turn}
    (h : x.Ongoing before ts) (y : Yield) (paths : List Path) :
    Keeps (before ++ paths) (ts ++ x.readTurns paths) (x.extractAll y paths) := by
  induction paths generalizing x before ts y with
  | nil =>
    have hsilent : x.readTurns [] = [] := rfl
    rw [hsilent, List.append_nil, List.append_nil]
    exact .ok h
  | cons path rest ih =>
    have hrest : before ++ path :: rest = before ++ [path] ++ rest := by simp
    rw [hrest]
    unfold Extraction.extractAll readTurns
    cases Language.ofPath path with
    | none => exact ih (h.mono (List.sublist_append_left _ _)) y
    | some l =>
      have hfile := h.extractFile path l.name
      dsimp only
      rw [← List.append_assoc]
      generalize x.extractFile path l.name = r at hfile ⊢
      cases hfile with
      | error hz =>
        rw [List.append_nil]
        exact .error (hz.mono (List.sublist_append_left _ _))
      | ok hz => exact ih hz _

theorem Keeps.fits {α : Type} {paths : List Path} {ts : List Turn}
    {r : Extraction × Except Crash α} (h : Keeps paths ts r) : r.1.Fits paths ts := by
  cases h with
  | ok h => exact h.toFits
  | error h => exact h

theorem isSome_session?_stopClient (x : Extraction) (argv other : List Value) :
    ((x.stopClient argv).session? other).isSome = (x.session? other).isSome := by
  unfold stopClient
  cases hs : x.session? argv with
  | none => rfl
  | some s =>
    dsimp only
    rw [isSome_session?_putBack hs]

/-- Only a server with a session is taken leave of. -/
theorem actsFor_stopTurns_of_isNone {x : Extraction} {argv other : List Value}
    (h : (x.session? other).isSome = false) : actsFor (x.stopTurns argv) other = [] := by
  unfold stopTurns
  cases hs : x.session? argv with
  | none => rfl
  | some s =>
    dsimp only
    rw [actsFor_towards]
    cases hsame : sameArgv argv other with
    | false => rfl
    | true =>
      rw [← session?_congr x hsame, hs] at h
      cases h

theorem actsFor_closeTurns_of_isNone {x : Extraction} {other : List Value}
    (h : (x.session? other).isSome = false) (argvs : List (List Value)) :
    actsFor (x.closeTurns argvs) other = [] := by
  induction argvs generalizing x with
  | nil => rfl
  | cons argv rest ih =>
    rw [closeTurns, actsFor_append, actsFor_stopTurns_of_isNone h,
      ih ((isSome_session?_stopClient x argv other).trans h)]
    rfl

theorem actsFor_stopTurns {x : Extraction} (argv other : List Value) :
    Farewell (actsFor (x.stopTurns argv) other) ∧
      (sameArgv argv other = false → actsFor (x.stopTurns argv) other = []) := by
  unfold stopTurns
  cases x.session? argv with
  | none => exact ⟨.silent, fun _ => rfl⟩
  | some s =>
    dsimp only
    rw [actsFor_towards]
    cases hsame : sameArgv argv other with
    | false => exact ⟨.silent, fun _ => rfl⟩
    | true => exact ⟨Session.farewell_stopActs _, fun hno => by cases hno⟩

theorem actsFor_closeTurns_of_differ {argvs : List (List Value)} {other : List Value}
    (h : ∀ argv ∈ argvs, sameArgv argv other = false) (x : Extraction) :
    actsFor (x.closeTurns argvs) other = [] := by
  induction argvs generalizing x with
  | nil => rfl
  | cons argv rest ih =>
    rw [List.forall_mem_cons] at h
    rw [closeTurns, actsFor_append, (actsFor_stopTurns argv other).2 h.1, ih h.2]
    rfl

/-- Each server is taken leave of once. -/
theorem farewell_closeTurns {argvs : List (List Value)}
    (h : argvs.Pairwise fun a b => sameArgv a b = false) (x : Extraction) (other : List Value) :
    Farewell (actsFor (x.closeTurns argvs) other) := by
  induction argvs generalizing x with
  | nil => exact .silent
  | cons argv rest ih =>
    rw [List.pairwise_cons] at h
    rw [closeTurns, actsFor_append]
    have hstop := actsFor_stopTurns (x := x) argv other
    cases hsame : sameArgv argv other with
    | false =>
      rw [hstop.2 hsame]
      exact ih h.2 _
    | true =>
      have hothers : ∀ b ∈ rest, sameArgv b other = false := by
        intro b hb
        rw [← sameArgv_congr hsame, sameArgv_comm]
        exact h.1 b hb
      rw [actsFor_closeTurns_of_differ hothers, List.append_nil]
      exact hstop.1

/-- The files that a run comes to, in order: none if it cannot search for them. -/
def listed (x : Extraction) (languages : List Language) : List Path :=
  match x.discovered languages with
  | .error _ => []
  | .ok paths => paths

/-- Whatever its servers do, a run has at most one conversation with the server of each command
line, in which the files come in the order in which they are found and one after another; and the
servers see what of this reaches them, in order. -/
theorem extract_keeps_conversations {x : Extraction} (hnew : x.clients = [])
    (languages : List Language) :
    (∀ argv, Conversation argv (x.listed languages) (actsFor (x.turns languages) argv)) ∧
    (x.extract languages).1.ownLog = x.ownLog ++ seen (x.turns languages) := by
  refine ⟨fun argv => ?_, ownLog_extract x languages⟩
  unfold listed turns
  cases x.discovered languages with
  | error f => exact .silent
  | ok paths =>
    have hfits : (x.whenRead paths).Fits paths (x.readTurns paths) :=
      ((ongoing_nil hnew).extractAll _ _).fits
    have hstage := hfits.stage argv
    dsimp only
    rw [actsFor_append]
    cases hgoing : ((x.whenRead paths).session? argv).isSome with
    | true =>
      rw [hgoing] at hstage
      exact .whole hstage (farewell_closeTurns hfits.distinct _ argv)
    | false =>
      rw [hgoing] at hstage
      rw [actsFor_closeTurns_of_isNone hgoing, List.append_nil]
      exact hstage

/-- A project with one source file, and a server that does the usual. -/
def plainExtraction : Extraction :=
  { listExtraction with programs := .ofTable (.ofPairs [("srv", {})]) }

theorem launches_plainExtraction : plainExtraction.Launches "javascript" listServer {} :=
  ⟨⟨rfl, rfl, rfl⟩, rfl, rfl⟩

/-- The usual server can be started and then asked. -/
theorem start_plainExtraction :
    (plainExtraction.newSession "javascript" listServer.argv {}).start.2 = none ∧
    (plainExtraction.newSession "javascript" listServer.argv {}).start.1.phase = .ready := by
  have hgreets := Session.greets_of_await
    (s := plainExtraction.newSession "javascript" listServer.argv {}) "file:///w/p" 1 rfl rfl
    (by decide +kernel) rfl (Session.await_of_reply
      (Peer.reply (.integer 1) "result" (.record [("capabilities", .record [])])) []
      (by decide +kernel) (by decide +kernel) (by decide +kernel) (by decide +kernel) rfl)
  rw [hgreets.start]
  exact ⟨rfl, rfl⟩

/-- A session that is ready opens the document of a file. -/
theorem opening_mem_fetchActs {s : Session} (h : s.phase = .ready) {path : Path} {uri : String}
    (huri : path.uri? = some uri) (text languageId : String) :
    ∃ e, .send .ready (opening uri text languageId) e ∈ s.fetchActs path text languageId := by
  have hready : s.isReady = true := decide_eq_true h
  refine ⟨(s.send (opening uri text languageId)).2, ?_⟩
  rw [Session.fetchActs, huri]
  refine List.mem_append_left _ ?_
  rw [Session.openActs, if_pos hready, Session.sendActs, h]
  exact List.mem_singleton_self _

/-- In the conversation with the usual server, the file of the project is opened. -/
theorem extract_keeps_conversations_plainExtraction :
    plainExtraction.clients = [] ∧
    Conversation [.text "srv"] (plainExtraction.listed [])
      (actsFor (plainExtraction.turns []) [.text "srv"]) ∧
    ∃ text languageId e, .send .ready (opening "file:///w/p/a.js" text languageId) e ∈
      actsFor (plainExtraction.turns []) [.text "srv"] := by
  refine ⟨rfl, (extract_keeps_conversations rfl []).1 [.text "srv"], ?_⟩
  have hpaths : plainExtraction.discovered [] = .ok [⟨"/", ["w", "p", "a.js"]⟩] :=
    discovered_listExtraction
  have huri : Path.uri? ⟨"/", ["w", "p", "a.js"]⟩ = some "file:///w/p/a.js" := by decide +kernel
  have huse : plainExtraction.useServers = true := rfl
  obtain ⟨source, hopen⟩ := opens_listExtraction
  have hsource : plainExtraction.source? ⟨"/", ["w", "p", "a.js"]⟩ = some source :=
    source?_eq_some_iff.mpr ⟨"a.js", lists_listExtraction.toLocates.alike ⟨rfl, rfl, rfl⟩, hopen⟩
  obtain ⟨hstart, hphase⟩ := start_plainExtraction
  obtain ⟨z, hclient, hsession⟩ := launches_plainExtraction.exists_session hstart
  generalize (plainExtraction.newSession "javascript" listServer.argv {}).start.1 = s
    at hphase hsession
  have hread : plainExtraction.readTurns [⟨"/", ["w", "p", "a.js"]⟩] =
      plainExtraction.fileTurns ⟨"/", ["w", "p", "a.js"]⟩ "javascript" ++ _ := rfl
  have hvisit : ∀ a ∈ ({ s with log := [] } : Session).fetchActs ⟨"/", ["w", "p", "a.js"]⟩
      (String.ofList source.text)
      ((Language.serverId? ⟨"/", ["w", "p", "a.js"]⟩).getD s.languageId),
      a ∈ actsFor (plainExtraction.turns []) [.text "srv"] := by
    intro a ha
    rw [turns, hpaths]
    dsimp only
    rw [hread, fileTurns, hsource]
    dsimp only
    rw [if_pos huse, hclient]
    dsimp only
    rw [fetchTurns, hsession]
    simp only [actsFor_append, actsFor_towards, List.mem_append]
    exact .inl (.inl (.inr ha))
  obtain ⟨e, he⟩ := opening_mem_fetchActs (s := { s with log := [] }) hphase huri _ _
  exact ⟨_, _, e, hvisit _ he⟩

end CodeAtlas.Extraction
