import CodeAtlas.Proofs.Server.Starts

/-!
# What a session says to its server

The acts of a session are the processes that it asks for, the messages that it
hands over for sending, each with the phase in which it does so and the error
that it gets, and the ends of the requests that it waits for. Answers to the
server's own requests are given by the reader and are no acts. The server sees
the acts that reach it, in their order. A start greets the server, a visit opens
a document, asks for its outline and closes it, and a stop takes leave.
-/

namespace CodeAtlas.Server

/-- What a session does towards its server of its own accord. -/
inductive Act
  | spawn (command : List Value) (directory : String)
  /-- A message is handed over in a phase of the session. -/
  | send (phase : Phase) (message : Value) (error : Option LinkError)
  /-- A request is waited for no longer, and has this outcome by then. -/
  | ended (id : Nat) (outcome : Option Outcome)

/-- What the server sees of an act. A message is lost only if no process runs. -/
def Act.event? : Act → Option Event
  | .spawn command directory => some (.spawn command directory)
  | .send _ message error => if error = some .notRunning then none else some (.message message)
  | .ended _ _ => none

/-- Whether an event comes from an act: answers have no method. -/
def Event.isOwn : Event → Bool
  | .spawn _ _ => true
  | .message v => (v.field? "method").isSome
  | .terminate | .kill | .pause => false

/-- What a message about a document says if it only names the document. -/
def document (uri : String) : Value := .record [("textDocument", .record [("uri", .text uri)])]

def opening (uri text languageId : String) : Value :=
  Session.call "textDocument/didOpen" none (.record [("textDocument",
    .record [("uri", .text uri), ("languageId", .text languageId), ("version", .integer 1),
      ("text", .text text)])])

def closing (uri : String) : Value := Session.call "textDocument/didClose" none (document uri)

/-- A request and its end. -/
def asking (phase : Phase) (method : String) (params : Value) (id : Nat) (e : Option LinkError)
    (o : Outcome) : List Act :=
  [.send phase (Session.call method (some id) params) e, .ended id (some o)]

namespace Session

def sendActs (s : Session) (message : Value) : List Act :=
  [.send s.phase message (s.send message).2]

/-- The session once a request has its number. -/
def numbering (s : Session) (method : String) (timeout : Duration) : Session :=
  { s with channel := s.channel.issue method (s.clock + timeout) }

/-- The number that the next request gets. -/
def nextId (s : Session) : Nat := s.channel.lastId + 1

/-- A request is handed over with its number, and then waited for. -/
def askActs (s : Session) (method : String) (params : Value) (timeout : Duration) : List Act :=
  if s.phase = .starting ∨ s.phase = .ready then
    (s.numbering method timeout).sendActs (call method (some s.nextId) params) ++
      [.ended s.nextId ((s.ask method params timeout).1.channel.outcome? s.nextId)]
  else []

def askToExitActs (s : Session) : List Act :=
  if s.phase = .ready then
    s.askActs "shutdown" .null shutdownGrace ++
      match s.ask "shutdown" .null shutdownGrace with
      | (t, .answer _) => t.sendActs (call "exit" none .null)
      | (_, .failure _) => []
  else []

def stopActs (s : Session) : List Act :=
  if s.phase = .stopped ∧ s.attached = false then [] else s.askToExitActs

def completeActs (s : Session) (result : Value) : List Act :=
  match capabilitiesOf? result with
  | none => []
  | some capabilities =>
    ({ s with capabilities }.setPhase .ready).sendActs (call "initialized" none (.record []))

def introduceActs (s : Session) : List Act :=
  match s.root.uri? with
  | none => []
  | some uri =>
    s.askActs "initialize" (s.initializeParams uri) s.timeout ++
      match s.ask "initialize" (s.initializeParams uri) s.timeout with
      | (t, .answer result) => t.completeActs result
      | (t, .failure _) => t.stopActs

def startActs (s : Session) : List Act :=
  if s.phase = .notStarted then
    match s.spawnFault? with
    | none => .spawn s.command s.root.text :: s.launched.introduceActs
    | some (.line _) => []
    | some (.system _) => [.spawn s.command s.root.text]
  else []

def openActs (s : Session) (uri text languageId : String) : List Act :=
  if s.isReady then s.sendActs (opening uri text languageId) else []

def outlineActs (s : Session) (uri : String) : List Act :=
  if s.isReady then s.askActs "textDocument/documentSymbol" (document uri) s.timeout else []

def closeActs (s : Session) (uri : String) : List Act :=
  if s.isReady then s.sendActs (closing uri) else []

def fetchActs (s : Session) (path : Path) (text languageId : String) : List Act :=
  match path.uri? with
  | none => []
  | some uri =>
    s.openActs uri text languageId ++
      match s.openDocument uri text languageId with
      | (_, .error _) => []
      | (t, .ok _) => t.outlineActs uri ++ (t.outline uri).1.closeActs uri

section

variable {s : Session} (h : s.phase = .starting ∨ s.phase = .ready) {method : String}
  {params : Value} {timeout : Duration} {t : Session}

theorem tracks_of_send {e : Option LinkError}
    (hsend : (s.numbering method timeout).send (call method (some s.nextId) params) = (t, e)) :
    t.channel.Tracks s.nextId := by
  have hchannel := channel_send (s.numbering method timeout) (call method (some s.nextId) params)
  rw [hsend] at hchannel
  rw [hchannel]
  exact s.channel.tracks_issue method _

include h

/-- A request that cannot be sent ends at once. -/
theorem ask_of_unsent {e : LinkError}
    (hsend : (s.numbering method timeout).send (call method (some s.nextId) params) =
      (t, some e)) :
    s.ask method params timeout =
      ({ t with channel := t.channel.finish s.nextId (.failure e) }, .failure e) := by
  unfold numbering nextId at hsend
  unfold ask request
  rw [if_pos h]
  dsimp only [Channel.issue] at hsend ⊢
  rw [hsend]
  rfl

/-- A request that has been sent is waited for. -/
theorem ask_of_sent
    (hsend : (s.numbering method timeout).send (call method (some s.nextId) params) =
      (t, none)) :
    ∃ u : Session, u.log = t.log ∧ u.channel.Tracks s.nextId ∧
      s.ask method params timeout = u.await s.nextId := by
  have htracks := tracks_of_send hsend
  unfold numbering nextId at hsend
  unfold ask request
  rw [if_pos h]
  dsimp only [Channel.issue] at hsend ⊢
  rw [hsend]
  dsimp only
  by_cases hzero : timeout ≤ 0
  · rw [if_pos hzero]
    refine ⟨_, ?_, ?_, rfl⟩
    · rfl
    · exact htracks.finish _ _
  · rw [if_neg hzero]
    exact ⟨t, rfl, htracks, rfl⟩

end

/-- A request that may be made is handed over and ends. One that is answered was sent. -/
theorem askActs_eq_asking {s : Session} (h : s.phase = .starting ∨ s.phase = .ready)
    (method : String) (params : Value) (timeout : Duration) :
    ∃ e o, s.askActs method params timeout = asking s.phase method params s.nextId e o ∧
      ∀ result, (s.ask method params timeout).2 = .answer result →
        e = none ∧ o = .answer result := by
  have hacts : s.askActs method params timeout =
      [.send s.phase (call method (some s.nextId) params)
        ((s.numbering method timeout).send (call method (some s.nextId) params)).2,
        .ended s.nextId ((s.ask method params timeout).1.channel.outcome? s.nextId)] := if_pos h
  rw [hacts]
  cases hsend : (s.numbering method timeout).send (call method (some s.nextId) params) with
  | mk t error =>
    cases error with
    | some e =>
      obtain ⟨o, ho⟩ := (tracks_of_send hsend).exists_outcome?_finish (.failure e)
      rw [ask_of_unsent h hsend]
      dsimp only
      rw [ho]
      exact ⟨some e, o, rfl, fun result hresult => by cases hresult⟩
    | none =>
      obtain ⟨u, -, htracks, hask⟩ := ask_of_sent h hsend
      rw [hask, outcome?_await htracks]
      exact ⟨none, _, rfl, fun result hresult => ⟨rfl, hresult⟩⟩

/-- What the server has seen of the acts of a session. -/
def ownLog (s : Session) : List Event := s.log.filter Event.isOwn

theorem log_send (s : Session) (message : Value) :
    (s.send message).1.log =
      s.log ++ if (s.send message).2 = some .notRunning then [] else [.message message] := by
  unfold send
  split
  · split
    · dsimp only
      split <;> rfl
    · simp
  · simp

/-- A call is seen if it reaches the server. -/
theorem ownLog_send_call (s : Session) (method : String) (id : Option Nat) (params : Value) :
    (s.send (call method id params)).1.ownLog =
      s.ownLog ++ (s.sendActs (call method id params)).filterMap Act.event? := by
  have hown : Event.isOwn (.message (call method id params)) = true := by
    cases id <;> rfl
  rw [ownLog, log_send, List.filter_append, ownLog, sendActs]
  split
  next hlost => simp [Act.event?, hlost]
  next hseen => simp [Act.event?, hseen, hown]

/-- What the reader answers is not seen as an act. -/
theorem ownLog_take (s : Session) (v : Value) : (s.take v).ownLog = s.ownLog := by
  have hhandle : (s.handle v).1.ownLog = s.ownLog := by
    unfold handle
    split
    next id _ =>
      rw [ownLog, log_send, List.filter_append]
      split <;> exact List.append_nil _
    · rfl
    · rfl
    · split
      · split <;> rfl
      · rfl
    · rfl
  cases he : (s.handle v).2 with
  | none => rw [take_of_ok he, hhandle]
  | some e => rw [take_of_error he, ← hhandle]; rfl

theorem ownLog_settle (s : Session) : s.settle.ownLog = s.ownLog := by
  have hwake : s.wake.ownLog = s.ownLog := by
    unfold wake
    split <;> rfl
  exact pump_induction (·.ownLog = s.ownLog) (fun _ _ _ h => h)
    (fun _ _ _ _ h => (ownLog_take _ _).trans h) _ hwake

theorem ownLog_note (s : Session) {e : Event} (he : e.isOwn = false) :
    (s.note e).ownLog = s.ownLog := by
  simp [ownLog, note, he]

theorem ownLog_pause (s : Session) : s.pause.ownLog = s.ownLog :=
  (ownLog_settle _).trans (ownLog_note s rfl)

theorem ownLog_await (s : Session) (id : Nat) : (s.await id).1.ownLog = s.ownLog := by
  unfold await
  dsimp only
  split <;> exact ownLog_pause s

theorem ownLog_ask (s : Session) (method : String) (params : Value) (timeout : Duration) :
    (s.ask method params timeout).1.ownLog =
      s.ownLog ++ (s.askActs method params timeout).filterMap Act.event? := by
  by_cases h : s.phase = .starting ∨ s.phase = .ready
  · have hsent := ownLog_send_call (s.numbering method timeout) method (some s.nextId) params
    have hacts : (s.askActs method params timeout).filterMap Act.event? =
        ((s.numbering method timeout).sendActs (call method (some s.nextId) params)).filterMap
          Act.event? := by
      rw [askActs, if_pos h, List.filterMap_append]
      exact List.append_nil _
    rw [hacts]
    cases hsend : (s.numbering method timeout).send (call method (some s.nextId) params) with
    | mk t error =>
      rw [hsend] at hsent
      cases error with
      | some e =>
        rw [ask_of_unsent h hsend]
        exact hsent
      | none =>
        obtain ⟨u, hlog, -, hask⟩ := ask_of_sent h hsend
        rw [hask, ownLog_await, ownLog, hlog]
        exact hsent
  · rw [askActs, if_neg h, ask, request, if_neg h]
    exact (List.append_nil _).symm

theorem ownLog_askToExit (s : Session) :
    s.askToExit.ownLog = s.ownLog ++ s.askToExitActs.filterMap Act.event? := by
  unfold askToExit askToExitActs
  split
  · have hask := ownLog_ask s "shutdown" .null shutdownGrace
    rw [List.filterMap_append, ← List.append_assoc, ← hask]
    cases s.ask "shutdown" .null shutdownGrace with
    | mk t o =>
      cases o with
      | answer result => exact ownLog_send_call t "exit" none .null
      | failure e => exact (List.append_nil _).symm
  · exact (List.append_nil _).symm

theorem ownLog_endProcess (s : Session) : s.endProcess.ownLog = s.ownLog := by
  have hterminate : (s.note .terminate).ownLog = s.ownLog := ownLog_note s rfl
  unfold endProcess
  split
  · dsimp only
    split
    · rw [ownLog_pause]
      exact (ownLog_note _ rfl).trans ((ownLog_pause _).trans hterminate)
    · rw [ownLog_pause]
      exact hterminate
  · rfl

theorem ownLog_cancelReader (s : Session) : s.cancelReader.ownLog = s.ownLog := by
  unfold cancelReader
  split
  · exact ownLog_note s rfl
  · exact ownLog_note s rfl
  · rfl

theorem ownLog_stop (s : Session) :
    s.stop.ownLog = s.ownLog ++ s.stopActs.filterMap Act.event? := by
  unfold stop stopActs
  split
  · exact (List.append_nil _).symm
  · rw [← ownLog_askToExit]
    refine (ownLog_cancelReader _).trans ?_
    split
    · exact ownLog_endProcess _
    · rfl

theorem ownLog_completeStart (s : Session) (result : Value) :
    (s.completeStart result).1.ownLog =
      s.ownLog ++ (s.completeActs result).filterMap Act.event? := by
  unfold completeStart completeActs
  cases capabilitiesOf? result with
  | none => exact (List.append_nil _).symm
  | some capabilities =>
    exact ownLog_send_call ({ s with capabilities }.setPhase .ready) "initialized" none (.record [])

theorem ownLog_introduce (s : Session) :
    s.introduce.1.ownLog = s.ownLog ++ s.introduceActs.filterMap Act.event? := by
  unfold introduce introduceActs
  cases s.root.uri? with
  | none => exact (List.append_nil _).symm
  | some uri =>
    have hask := ownLog_ask s "initialize" (s.initializeParams uri) s.timeout
    dsimp only
    rw [List.filterMap_append, ← List.append_assoc, ← hask]
    cases s.ask "initialize" (s.initializeParams uri) s.timeout with
    | mk t o =>
      cases o with
      | answer result => exact ownLog_completeStart t result
      | failure e => exact ownLog_stop t

theorem ownLog_start (s : Session) :
    s.start.1.ownLog = s.ownLog ++ s.startActs.filterMap Act.event? := by
  by_cases hphase : s.phase = .notStarted
  · have hlaunching : s.launching.ownLog = s.ownLog ++ [.spawn s.command s.root.text] :=
      List.filter_append ..
    rw [startActs, if_pos hphase]
    cases hspawns : s.spawnFault? with
    | none =>
      have hlaunched : s.launched.ownLog = s.launching.ownLog := rfl
      rw [start_eq_introduce hphase hspawns, ownLog_introduce, hlaunched, hlaunching,
        List.append_assoc]
      rfl
    | some fault =>
      cases fault with
      | line f =>
        rw [start_of_line hphase hspawns]
        exact (List.append_nil _).symm
      | system reason =>
        rw [start_of_system hphase hspawns]
        exact hlaunching
  · rw [start, if_neg hphase, startActs, if_neg hphase]
    exact (List.append_nil _).symm

theorem fst_sent (r : Session × Option LinkError) : (sent r).1 = r.1 := by
  obtain ⟨t, e⟩ := r
  cases e <;> rfl

theorem openDocument_of_ready {s : Session} (h : s.isReady = true)
    (uri text languageId : String) :
    s.openDocument uri text languageId = sent (s.send (opening uri text languageId)) :=
  if_pos h

theorem closeDocument_of_ready {s : Session} (h : s.isReady = true) (uri : String) :
    s.closeDocument uri = sent (s.send (closing uri)) :=
  if_pos h

theorem outline_of_ready {s : Session} (h : s.isReady = true) (uri : String) :
    s.outline uri =
      ((s.ask "textDocument/documentSymbol" (document uri) s.timeout).1,
        outlineOf (s.ask "textDocument/documentSymbol" (document uri) s.timeout).2) := by
  unfold outline requestOutline whenReady ask document
  rw [if_pos h]
  beta_reduce
  cases s.request "textDocument/documentSymbol"
    (.record [("textDocument", .record [("uri", .text uri)])]) s.timeout with
  | mk t r => cases r <;> rfl

theorem ownLog_openDocument (s : Session) (uri text languageId : String) :
    (s.openDocument uri text languageId).1.ownLog =
      s.ownLog ++ (s.openActs uri text languageId).filterMap Act.event? := by
  by_cases h : s.isReady = true
  · rw [openDocument_of_ready h, fst_sent, openActs, if_pos h]
    exact ownLog_send_call s _ _ _
  · rw [openDocument, whenReady, if_neg h, openActs, if_neg h]
    exact (List.append_nil _).symm

theorem ownLog_outline (s : Session) (uri : String) :
    (s.outline uri).1.ownLog = s.ownLog ++ (s.outlineActs uri).filterMap Act.event? := by
  by_cases h : s.isReady = true
  · rw [outline_of_ready h, outlineActs, if_pos h]
    exact ownLog_ask s _ _ _
  · rw [outline, requestOutline, whenReady, if_neg h, outlineActs, if_neg h]
    exact (List.append_nil _).symm

theorem ownLog_closeDocument (s : Session) (uri : String) :
    (s.closeDocument uri).1.ownLog = s.ownLog ++ (s.closeActs uri).filterMap Act.event? := by
  by_cases h : s.isReady = true
  · rw [closeDocument_of_ready h, fst_sent, closeActs, if_pos h]
    exact ownLog_send_call s _ _ _
  · rw [closeDocument, whenReady, if_neg h, closeActs, if_neg h]
    exact (List.append_nil _).symm

theorem ownLog_fetchOutline (s : Session) (path : Path) (text languageId : String) :
    (s.fetchOutline path text languageId).1.ownLog =
      s.ownLog ++ (s.fetchActs path text languageId).filterMap Act.event? := by
  unfold fetchOutline fetchActs
  cases path.uri? with
  | none => exact (List.append_nil _).symm
  | some uri =>
    have hopen := ownLog_openDocument s uri text languageId
    dsimp only
    rw [List.filterMap_append, ← List.append_assoc, ← hopen]
    cases s.openDocument uri text languageId with
    | mk t r =>
      cases r with
      | error f => exact (List.append_nil _).symm
      | ok _ =>
        dsimp only
        rw [ownLog_closeDocument, ownLog_outline, List.filterMap_append, List.append_assoc]

end Session

/-- The beginning of a conversation, as far as it gets: the server is asked for its capabilities,
and is told once it has answered. -/
inductive Greeting : List Act → Prop
  | silent : Greeting []
  | asked {params : Value} {id : Nat} {e : Option LinkError} {o : Outcome} :
    Greeting (asking .starting "initialize" params id e o)
  | told {params result : Value} {id : Nat} {e : Option LinkError} :
    Greeting (asking .starting "initialize" params id none (.answer result) ++
      [.send .ready (Session.call "initialized" none (.record [])) e])

/-- A greeting to its end. -/
inductive Greeted : List Act → Prop
  | told {params result : Value} {id : Nat} :
    Greeted (asking .starting "initialize" params id none (.answer result) ++
      [.send .ready (Session.call "initialized" none (.record [])) none])

/-- What is said about one document. It has to be open before its outline is asked for, and is
closed when the request has ended. -/
inductive Visit (uri : String) : List Act → Prop
  | refused {text languageId : String} {e : LinkError} :
    Visit uri [.send .ready (opening uri text languageId) (some e)]
  | left {text languageId : String} {id : Nat} {e : Option LinkError} {o : Outcome} :
    Visit uri (.send .ready (opening uri text languageId) none ::
      asking .ready "textDocument/documentSymbol" (document uri) id e o)
  | closed {text languageId : String} {id : Nat} {e e' : Option LinkError} {o : Outcome} :
    Visit uri (.send .ready (opening uri text languageId) none ::
      asking .ready "textDocument/documentSymbol" (document uri) id e o ++
      [.send .ready (closing uri) e'])

/-- The end of a conversation: the server is told to exit once it has agreed to shut down. -/
inductive Farewell : List Act → Prop
  | silent : Farewell []
  | asked {id : Nat} {e : Option LinkError} {o : Outcome} :
    Farewell (asking .ready "shutdown" .null id e o)
  | told {id : Nat} {result : Value} {phase : Phase} {e : Option LinkError} :
    Farewell (asking .ready "shutdown" .null id none (.answer result) ++
      [.send phase (Session.call "exit" none .null) e])

namespace Session

theorem farewell_stopActs (s : Session) : Farewell s.stopActs := by
  unfold stopActs askToExitActs
  split
  · exact .silent
  · split
    next hready =>
      obtain ⟨e, o, hacts, hanswered⟩ :=
        askActs_eq_asking (.inr hready) "shutdown" .null shutdownGrace
      rw [hacts, hready]
      cases hask : s.ask "shutdown" .null shutdownGrace with
      | mk t r =>
        rw [hask] at hanswered
        cases r with
        | answer result =>
          obtain ⟨rfl, rfl⟩ := hanswered result rfl
          exact .told
        | failure f =>
          rw [List.append_nil]
          exact .asked
    · exact .silent

theorem stopActs_of_not_ready {s : Session} (h : s.phase ≠ .ready) : s.stopActs = [] := by
  unfold stopActs askToExitActs
  rw [if_neg h, ite_self]

/-- The server is told that it has been understood, unless it has not. -/
theorem completeActs_cases (s : Session) (result : Value) :
    (s.completeActs result = [] ∧ (s.completeStart result).2 ≠ none) ∨
    ∃ e, s.completeActs result = [.send .ready (call "initialized" none (.record [])) e] ∧
      ((s.completeStart result).2 = none → e = none) := by
  unfold completeActs completeStart
  cases capabilitiesOf? result with
  | none => exact .inl ⟨rfl, Option.some_ne_none _⟩
  | some capabilities => exact .inr ⟨_, rfl, Option.map_eq_none_iff.mp⟩

/-- A process is greeted to the end, if the start succeeds. -/
theorem introduceActs_eq_greeting (s : Session) :
    Greeting s.launched.introduceActs ∧
      (s.launched.introduce.2 = none → Greeted s.launched.introduceActs) := by
  rw [introduceActs, introduce]
  cases s.launched.root.uri? with
  | none => exact ⟨.silent, fun h => by cases h⟩
  | some uri =>
    have hleads := leadsTo_ask s.launched "initialize" (s.launched.initializeParams uri)
      s.launched.timeout
    obtain ⟨e, o, hacts, hanswered⟩ := askActs_eq_asking (s := s.launched) (.inl rfl) "initialize"
      (s.launched.initializeParams uri) s.launched.timeout
    dsimp only
    rw [hacts]
    cases hask : s.launched.ask "initialize" (s.launched.initializeParams uri)
        s.launched.timeout with
    | mk t r =>
      rw [hask] at hleads hanswered
      cases r with
      | answer result =>
        obtain ⟨rfl, rfl⟩ := hanswered result rfl
        dsimp only
        rcases completeActs_cases t result with ⟨hnone, hfails⟩ | ⟨e, hsome, he⟩
        · rw [hnone, List.append_nil]
          exact ⟨.asked, fun h => absurd h hfails⟩
        · rw [hsome]
          refine ⟨.told, fun h => ?_⟩
          rw [he h]
          exact .told
      | failure f =>
        dsimp only
        rw [stopActs_of_not_ready (hleads.phase_ne_ready Phase.noConfusion), List.append_nil]
        exact ⟨.asked, fun h => by cases h⟩

/-- A start asks for a process and greets it, to the end if it succeeds; it asks for none if there
can be none. -/
theorem startActs_cases {s : Session} (hphase : s.phase = .notStarted) :
    (s.startActs = [] ∧ s.start.2 ≠ none) ∨
    ∃ greeting, s.startActs = .spawn s.command s.root.text :: greeting ∧ Greeting greeting ∧
      (s.start.2 = none → Greeted greeting) := by
  rw [startActs, if_pos hphase]
  cases hspawns : s.spawnFault? with
  | none =>
    obtain ⟨hgreeting, hgreeted⟩ := s.introduceActs_eq_greeting
    refine .inr ⟨_, rfl, hgreeting, ?_⟩
    rwa [start_eq_introduce hphase hspawns]
  | some fault =>
    cases fault with
    | line f =>
      rw [start_of_line hphase hspawns]
      exact .inl ⟨rfl, Option.some_ne_none _⟩
    | system reason =>
      rw [start_of_system hphase hspawns]
      exact .inr ⟨[], rfl, .silent, fun h => by cases h⟩

/-- Once a document is open its outline is asked for, and it is closed if the session is still
ready then. -/
theorem visit_of_open {s : Session} (hphase : s.phase = .ready) {uri text languageId : String} :
    Visit uri (.send .ready (opening uri text languageId) none ::
      (s.outlineActs uri ++ (s.outline uri).1.closeActs uri)) := by
  have hready : s.isReady = true := decide_eq_true hphase
  obtain ⟨e, o, hacts, -⟩ :=
    askActs_eq_asking (.inr hphase) "textDocument/documentSymbol" (document uri) s.timeout
  rw [outlineActs, if_pos hready, hacts, hphase, closeActs]
  split
  next hlater =>
    have hphase' : (s.outline uri).1.phase = .ready := of_decide_eq_true hlater
    rw [sendActs, hphase']
    exact .closed
  next =>
    rw [List.append_nil]
    exact .left

/-- A fetch says nothing, or what is said about one document. -/
theorem fetchActs_eq_nil_or_visit (s : Session) (path : Path) (text languageId : String) :
    s.fetchActs path text languageId = [] ∨
      ∃ uri, path.uri? = some uri ∧ Visit uri (s.fetchActs path text languageId) := by
  unfold fetchActs
  cases path.uri? with
  | none => exact .inl rfl
  | some uri =>
    dsimp only
    by_cases hready : s.isReady = true
    case neg =>
      left
      rw [openActs, openDocument, whenReady, if_neg hready, if_neg hready]
      rfl
    have hphase : s.phase = .ready := of_decide_eq_true hready
    refine .inr ⟨uri, rfl, ?_⟩
    rw [openActs, if_pos hready, openDocument_of_ready hready, sendActs, hphase]
    have hsent := phase_send s (opening uri text languageId)
    cases hsend : s.send (opening uri text languageId) with
    | mk t e =>
      cases e with
      | some e => exact .refused
      | none =>
        rw [hsend, hphase] at hsent
        exact visit_of_open hsent

end Session

end CodeAtlas.Server
