import CodeAtlas.Proofs.Server.Moves

/-!
# Calls are runs

Whatever is called on a session, in whatever order and with whatever server, the
session afterwards is one that a run of moves leads to. What holds after every
run therefore holds after every sequence of calls. Only a start goes on with an
answer, and it does so once.
-/

namespace CodeAtlas.Server

namespace Session

/-- Some run in which no start goes on leads from a session to another. -/
def LeadsTo (s t : Session) : Prop :=
  ∃ moves : List Move, (∀ m ∈ moves, m.isComplete = false) ∧ s.run moves = t

theorem LeadsTo.refl (s : Session) : s.LeadsTo s := ⟨[], by simp, rfl⟩

theorem LeadsTo.trans {s t u : Session} (h : s.LeadsTo t) (h' : t.LeadsTo u) : s.LeadsTo u := by
  obtain ⟨before, hbefore, rfl⟩ := h
  obtain ⟨after, hafter, rfl⟩ := h'
  refine ⟨before ++ after, fun m hm => ?_, run_append s before after⟩
  exact (List.mem_append.mp hm).elim (hbefore m) (hafter m)

theorem LeadsTo.of_move {s t : Session} (m : Move) (hm : m.isComplete = false)
    (h : s.move m = t) : s.LeadsTo t :=
  ⟨[m], by simpa using hm, h⟩

theorem LeadsTo.move (s : Session) (m : Move) (hm : m.isComplete = false) :
    s.LeadsTo (s.move m) :=
  .of_move m hm rfl

/-- What is no part of the channel may change in any way. -/
theorem LeadsTo.outside (s : Session) (peer : Option Peer) (inbox : List UInt8) (clock : Duration)
    (log : List Event) : s.LeadsTo { s with peer, inbox, clock, log } :=
  .move s (.outside peer inbox clock log) rfl

theorem leadsTo_note (s : Session) (e : Event) : s.LeadsTo (s.note e) :=
  .outside s s.peer s.inbox s.clock (s.log ++ [e])

theorem leadsTo_send (s : Session) (message : Value) : s.LeadsTo (s.send message).1 := by
  unfold send
  split
  · split
    · exact .outside s _ _ s.clock _
    · exact .refl s
  · exact .refl s

/-- Taking bytes from the inbox and then a message is what the reader does once. -/
theorem leadsTo_take {s : Session} (hr : s.reader = .running) (rest : List UInt8) (v : Value) :
    s.LeadsTo ({ s with inbox := rest }.take v) := by
  refine (LeadsTo.outside s s.peer rest s.clock s.log).trans (.of_move (.message v) rfl ?_)
  exact if_pos hr

theorem leadsTo_streamEnds {s : Session} (hr : s.reader = .running) (error : Option FrameError) :
    s.LeadsTo (s.endReader ((error.map linkError).getD .outputClosed)) :=
  .of_move (.streamEnds error) rfl (if_pos hr)

theorem pump_of_not_running {s : Session} (hr : s.reader ≠ .running) : s.pump = s := by
  rw [pump, if_neg hr]

theorem pump_of_waiting {s : Session} (hr : s.reader = .running)
    (hread : read s.outputClosed s.inbox = .waiting) : s.pump = s := by
  rw [pump, if_pos hr, hread]

theorem pump_of_finished {s : Session} (hr : s.reader = .running)
    (hread : read s.outputClosed s.inbox = .finished) : s.pump = s.endReader .outputClosed := by
  rw [pump, if_pos hr, hread]

/-- A reader that can read a message takes it in and goes on. -/
theorem pump_of_message {s : Session} {v : Value} {rest : List UInt8} (hr : s.reader = .running)
    (hread : read s.outputClosed s.inbox = .message v rest) :
    s.pump = ({ s with inbox := rest }.take v).pump := by
  rw [pump, if_pos hr]
  split
  next h => cases hread.symm.trans h
  next h => cases hread.symm.trans h
  next h => cases hread.symm.trans h
  next h =>
    obtain ⟨rfl, rfl⟩ := Reading.message.inj (hread.symm.trans h)
    dsimp only
    cases he : ({ s with inbox := rest }.handle v).2 with
    | none => rw [take_of_ok he]
    | some e =>
      rw [take_of_error he]
      exact (pump_of_not_running ReaderState.noConfusion).symm

/-- What every message and every end of the stream keeps, the reader keeps as long as it runs. -/
theorem pump_induction (P : Session → Prop)
    (hends : ∀ (s : Session) (error : Option FrameError), s.reader = .running → P s →
      P (s.endReader ((error.map linkError).getD .outputClosed)))
    (htake : ∀ (s : Session) (rest : List UInt8) (v : Value), s.reader = .running → P s →
      P ({ s with inbox := rest }.take v))
    (s : Session) (h : P s) : P s.pump := by
  induction s using pump.induct with
  | case1 s hr hread =>
    rw [pump, if_pos hr, hread]
    exact h
  | case2 s hr hread =>
    rw [pump_of_finished hr hread]
    exact hends s none hr h
  | case3 s hr e hread =>
    rw [pump, if_pos hr, hread]
    exact hends s (some e) hr h
  | case4 s hr v rest hread taken e he =>
    have hdone : (taken.take v).reader ≠ .running := by
      rw [take_of_error he]
      exact ReaderState.noConfusion
    rw [pump_of_message hr hread, pump_of_not_running hdone]
    exact htake s rest v hr h
  | case5 s hr v rest hread taken next he ih =>
    have htaken := htake s rest v hr h
    rw [pump_of_message hr hread]
    rw [take_of_ok he] at htaken ⊢
    exact ih htaken
  | case6 s hr =>
    rw [pump_of_not_running hr]
    exact h

theorem leadsTo_pump (s : Session) : s.LeadsTo s.pump :=
  pump_induction s.LeadsTo (fun _ error hr h => h.trans (leadsTo_streamEnds hr error))
    (fun _ rest v hr h => h.trans (leadsTo_take hr rest v)) s (.refl s)

theorem leadsTo_settle (s : Session) : s.LeadsTo s.settle :=
  (LeadsTo.move s .wake rfl).trans (leadsTo_pump s.wake)

theorem leadsTo_pause (s : Session) : s.LeadsTo s.pause :=
  (leadsTo_note s .pause).trans (leadsTo_settle _)

theorem leadsTo_request (s : Session) (method : String) (params : Value) (timeout : Duration) :
    s.LeadsTo (s.request method params timeout).1 := by
  unfold request
  split
  · -- The request is registered before it is written, and ends here if it cannot be.
    let issued := { s with channel := s.channel.issue method (s.clock + timeout) }
    let id := issued.channel.lastId
    have hissued : s.LeadsTo (issued.send (call method (some id) params)).1 :=
      (LeadsTo.move s (.register method (s.clock + timeout)) rfl).trans (leadsTo_send issued _)
    dsimp only
    split
    next sent e heq =>
      obtain ⟨reason, rfl⟩ := exists_unsentError_of_send (congrArg Prod.snd heq)
      have hsent : s.LeadsTo sent := by simpa only [issued, id, heq] using hissued
      exact hsent.trans (LeadsTo.move sent (.unsent _ reason) rfl)
    next sent heq =>
      have hsent : s.LeadsTo sent := by simpa only [issued, id, heq] using hissued
      split
      · exact hsent.trans (LeadsTo.move sent (.timeout method _) rfl)
      · exact hsent
  · exact .refl s

theorem leadsTo_await (s : Session) (id : Nat) : s.LeadsTo (s.await id).1 := by
  unfold await
  dsimp only
  split
  · exact leadsTo_pause s
  · exact (leadsTo_pause s).trans (LeadsTo.move _ (.time _) rfl)

theorem leadsTo_ask (s : Session) (method : String) (params : Value) (timeout : Duration) :
    s.LeadsTo (s.ask method params timeout).1 := by
  have hrequest := leadsTo_request s method params timeout
  unfold ask
  split
  next heq => rwa [heq] at hrequest
  next heq =>
    rw [heq] at hrequest
    exact hrequest.trans (leadsTo_await _ _)

theorem leadsTo_askToExit (s : Session) : s.LeadsTo s.askToExit := by
  unfold askToExit
  split
  · have hask := leadsTo_ask s "shutdown" .null shutdownGrace
    split
    next heq =>
      rw [heq] at hask
      exact hask.trans (leadsTo_send _ _)
    next heq => rwa [heq] at hask
  · exact .refl s

theorem leadsTo_killPeer (s : Session) : s.LeadsTo s.killPeer :=
  .outside s _ s.inbox s.clock s.log

theorem leadsTo_endProcess (s : Session) : s.LeadsTo s.endProcess := by
  unfold endProcess
  split
  · dsimp only
    split
    · exact ((leadsTo_note s .terminate).trans (leadsTo_pause _)).trans <|
        (LeadsTo.move _ (.time _) rfl).trans <| (leadsTo_note _ .kill).trans <|
        (leadsTo_killPeer _).trans (leadsTo_pause _)
    · exact (leadsTo_note s .terminate).trans <| (leadsTo_killPeer _).trans (leadsTo_pause _)
  · exact .refl s

theorem leadsTo_cancelReader (s : Session) : s.LeadsTo s.cancelReader := by
  unfold cancelReader
  split
  next hr => exact (leadsTo_note s .pause).trans (leadsTo_streamEnds (s := s.note .pause) hr none)
  next => exact leadsTo_note s .pause
  next => exact .refl s

@[simp] theorem attached_send (s : Session) (message : Value) :
    (s.send message).1.attached = s.attached := by
  unfold send
  split
  · split <;> rfl
  · rfl

@[simp] theorem attached_take (s : Session) (v : Value) : (s.take v).attached = s.attached := by
  have hhandle : (s.handle v).1.attached = s.attached := by
    unfold handle
    split
    · exact attached_send s _
    · rfl
    · rfl
    · split
      · split <;> rfl
      · rfl
    · rfl
  cases he : (s.handle v).2 with
  | none => rw [take_of_ok he, hhandle]
  | some e => rw [take_of_error he, ← hhandle]; rfl

@[simp] theorem attached_pause (s : Session) : s.pause.attached = s.attached := by
  have hwake : (s.note .pause).wake.attached = s.attached := by
    unfold wake
    split <;> rfl
  exact pump_induction (·.attached = s.attached) (fun _ _ _ h => h)
    (fun _ _ _ _ h => (attached_take _ _).trans h) _ hwake

theorem attached_endProcess (s : Session) : s.endProcess.attached = s.attached := by
  unfold endProcess
  split
  · dsimp only
    split
    · simp [killPeer, note, advance]
    · simp [killPeer, note]
  · rfl

theorem attached_cancelReader (s : Session) : s.cancelReader.attached = s.attached := by
  unfold cancelReader
  split <;> rfl

theorem leadsTo_stop (s : Session) : s.LeadsTo s.stop := by
  unfold stop
  split
  · exact .refl s
  · -- From the close on nothing holds the process again, so the last move may happen.
    let closed := { s.askToExit.setPhase .stopped with attached := false }
    let quiet := (if s.askToExit.attached then closed.endProcess else closed).cancelReader
    have hclosed : s.LeadsTo closed :=
      (leadsTo_askToExit s).trans (LeadsTo.move s.askToExit .close rfl)
    have hquiet : s.LeadsTo quiet := by
      refine LeadsTo.trans ?_ (leadsTo_cancelReader _)
      split
      · exact hclosed.trans (leadsTo_endProcess closed)
      · exact hclosed
    have hdetached : quiet.attached = false := by
      rw [attached_cancelReader]
      split
      · exact attached_endProcess closed
      · rfl
    exact hquiet.trans (.of_move .drop rfl (if_pos hdetached))

/-- A request that `ask` reports as answered has its answer in the channel. -/
theorem exists_outcome_of_ask {s t : Session} {method : String} {params result : Value}
    {timeout : Duration} (h : s.ask method params timeout = (t, .answer result)) :
    ∃ id, t.channel.outcome? id = some (.answer result) := by
  unfold ask at h
  split at h
  · simp at h
  next sent id heq =>
    refine ⟨id, ?_⟩
    unfold await at h
    dsimp only at h
    split at h
    next o ho =>
      obtain ⟨rfl, rfl⟩ := Prod.mk.inj h
      exact ho
    next hnone =>
      obtain ⟨rfl, hget⟩ := Prod.mk.inj h
      cases ho : Channel.outcome? (sent.pause.advance _).channel id with
      | none => rw [ho] at hget; simp at hget
      | some o => rw [ho] at hget; simpa using hget

/-- A session whose process has just been started. -/
def launched (s : Session) : Session := s.launching.spawn

/-- A start gets an answer to its first request, when the session has become `t`. -/
def Greets (s t : Session) (result : Value) : Prop :=
  s.phase = .notStarted ∧ s.spawnFault? = none ∧ ∃ uri, s.root.uri? = some uri ∧
    s.launched.ask "initialize" (s.launched.initializeParams uri) s.timeout = (t, .answer result)

theorem start_eq_introduce {s : Session} (hphase : s.phase = .notStarted)
    (hspawns : s.spawnFault? = none) : s.start = s.launched.introduce := by
  rw [start, if_pos hphase, hspawns]
  rfl

theorem start_of_line {s : Session} {f : LineFault} (hphase : s.phase = .notStarted)
    (hline : s.spawnFault? = some (.line f)) :
    s.start = (s.setPhase .starting, some (.line f)) := by
  rw [start, if_pos hphase, hline]

theorem start_of_system {s : Session} {reason : String} (hphase : s.phase = .notStarted)
    (hsystem : s.spawnFault? = some (.system reason)) :
    s.start =
      (s.launching.setPhase .stopped, some (.link (.spawn s.commandName reason))) := by
  rw [start, if_pos hphase, hsystem]

theorem Greets.start {s t : Session} {result : Value} (h : s.Greets t result) :
    s.start = t.completeStart result := by
  obtain ⟨hphase, hspawns, uri, huri, hask⟩ := h
  have hroot : s.launched.root.uri? = some uri := huri
  change s.launched.ask "initialize" _ s.launched.timeout = _ at hask
  rw [start_eq_introduce hphase hspawns, introduce, hroot]
  dsimp only
  rw [hask]

/-- A session that has not been started has no reader. -/
def Idle (s : Session) : Prop := s.phase = .notStarted → s.reader = .absent

theorem IsNew.idle {s : Session} (h : s.IsNew) : s.Idle := fun _ => h.reader

theorem Idle.move {s : Session} (hs : s.Idle) (m : Move) : (s.move m).Idle := by
  intro hphase
  have hbefore : s.phase = .notStarted := by
    rcases phase_move_cases s m with h | ⟨-, h⟩ | h | ⟨_, -, -, h⟩
    · rw [← h, hphase]
    all_goals rw [h] at hphase; cases hphase
  have hr := hs hbefore
  cases m with
  | outside | spawnFails | register | unsent | timeout | time | close => exact hr
  | begin => rwa [Session.move, if_pos hbefore]
  | spawn => simpa [Session.move, hbefore] using hr
  | wake => simp [Session.move, wake, hr]
  | message v => simp [Session.move, hr]
  | streamEnds error => simp [Session.move, hr]
  | complete id =>
    simp only [Session.move]
    split <;> exact hr
  | drop =>
    simp only [Session.move]
    split
    · rfl
    · exact hr

theorem Idle.run {s : Session} (hs : s.Idle) (moves : List Move) : (s.run moves).Idle := by
  induction moves generalizing s with
  | nil => exact hs
  | cons m rest ih => exact ih (hs.move m)

theorem leadsTo_starting {s : Session} (hphase : s.phase = .notStarted) :
    s.LeadsTo (s.setPhase .starting) :=
  LeadsTo.of_move .begin rfl (if_pos hphase)

theorem leadsTo_launching {s : Session} (hphase : s.phase = .notStarted) :
    s.LeadsTo s.launching :=
  (leadsTo_starting hphase).trans (leadsTo_note _ _)

theorem leadsTo_launched {s : Session} (hs : s.Idle) (hphase : s.phase = .notStarted) :
    s.LeadsTo s.launched := by
  let begun := s.launching
  have hmay : begun.phase ≠ .notStarted ∧ begun.reader = .absent :=
    ⟨Phase.noConfusion, hs hphase⟩
  exact (leadsTo_launching hphase).trans <| (LeadsTo.outside begun (some (.ofScript begun.script))
    begun.inbox begun.clock begun.log).trans (.of_move .spawn rfl (if_pos hmay))

theorem Greets.leadsTo {s t : Session} {result : Value} (h : s.Greets t result) (hs : s.Idle) :
    s.LeadsTo t := by
  obtain ⟨hphase, -, uri, -, hask⟩ := h
  have hleads := leadsTo_ask s.launched "initialize" (s.launched.initializeParams uri) s.timeout
  rw [hask] at hleads
  exact (leadsTo_launched hs hphase).trans hleads

/-- A start that is answered with capabilities goes on. -/
theorem Greets.exists_complete {s t : Session} {result : Value} (h : s.Greets t result)
    (hcap : (capabilitiesOf? result).isSome = true) :
    ∃ id, (t.capabilitiesFrom? id).isSome = true ∧
      (t.move (.complete id)).LeadsTo s.start.1 := by
  obtain ⟨capabilities, hcap⟩ := Option.isSome_iff_exists.mp hcap
  obtain ⟨id, hid⟩ : ∃ id, t.channel.outcome? id = some (.answer result) := by
    obtain ⟨-, -, uri, -, hask⟩ := h
    exact exists_outcome_of_ask hask
  have hfrom : t.capabilitiesFrom? id = some capabilities := by
    simp only [capabilitiesFrom?, hid, hcap]
  have hready : t.move (.complete id) = { t with capabilities }.setPhase .ready := by
    simp only [move, hfrom]
  refine ⟨id, by rw [hfrom]; rfl, ?_⟩
  rw [hready, h.start, completeStart, hcap]
  exact leadsTo_send _ _

theorem start_cases_of_spawned {s : Session} (hs : s.Idle) (hphase : s.phase = .notStarted)
    (hspawns : s.spawnFault? = none) :
    s.LeadsTo s.start.1 ∨
    ∃ t result, s.Greets t result ∧ (capabilitiesOf? result).isSome = true := by
  cases huri : s.root.uri? with
  | none =>
    left
    have hroot : s.launched.root.uri? = none := huri
    rw [start_eq_introduce hphase hspawns, introduce, hroot]
    exact leadsTo_launched hs hphase
  | some uri =>
    cases hask : s.launched.ask "initialize" (s.launched.initializeParams uri) s.timeout with
    | mk t o =>
      cases o with
      | answer result =>
        have hgreets : s.Greets t result := ⟨hphase, hspawns, uri, huri, hask⟩
        cases hcap : capabilitiesOf? result with
        | none =>
          left
          rw [hgreets.start, completeStart, hcap]
          exact hgreets.leadsTo hs
        | some capabilities => exact .inr ⟨t, result, hgreets, by rw [hcap]; rfl⟩
      | failure e =>
        left
        have hroot : s.launched.root.uri? = some uri := huri
        have hleads := leadsTo_ask s.launched "initialize" (s.launched.initializeParams uri)
          s.timeout
        rw [hask] at hleads
        change s.launched.ask "initialize" _ s.launched.timeout = _ at hask
        rw [start_eq_introduce hphase hspawns, introduce, hroot]
        dsimp only
        rw [hask]
        exact ((leadsTo_launched hs hphase).trans hleads).trans (leadsTo_stop t)

/-- A start goes on with the answer to its first request, or not at all. -/
theorem start_cases {s : Session} (hs : s.Idle) :
    s.LeadsTo s.start.1 ∨
    ∃ t result, s.Greets t result ∧ (capabilitiesOf? result).isSome = true := by
  by_cases hphase : s.phase = .notStarted
  case neg =>
    left
    rw [start, if_neg hphase]
    exact .refl s
  cases hspawns : s.spawnFault? with
  | none => exact start_cases_of_spawned hs hphase hspawns
  | some fault =>
    left
    cases fault with
    | line f =>
      rw [start_of_line hphase hspawns]
      exact leadsTo_starting hphase
    | system reason =>
      rw [start_of_system hphase hspawns]
      exact (leadsTo_launching hphase).trans (LeadsTo.move _ .spawnFails rfl)

theorem leadsTo_sent {s : Session} {r : Session × Option LinkError} (h : s.LeadsTo r.1) :
    s.LeadsTo (sent r).1 := by
  obtain ⟨t, e⟩ := r
  cases e <;> exact h

theorem leadsTo_whenReady {α : Type} (s : Session)
    {act : Session → Session × Except Failure α} (h : s.LeadsTo (act s).1) :
    s.LeadsTo (s.whenReady act).1 := by
  unfold whenReady
  split
  · exact h
  · exact .refl s

theorem leadsTo_openDocument (s : Session) (uri text languageId : String) :
    s.LeadsTo (s.openDocument uri text languageId).1 :=
  leadsTo_whenReady s (leadsTo_sent (leadsTo_send s _))

theorem leadsTo_closeDocument (s : Session) (uri : String) :
    s.LeadsTo (s.closeDocument uri).1 :=
  leadsTo_whenReady s (leadsTo_sent (leadsTo_send s _))

theorem leadsTo_requestOutline (s : Session) (uri : String) :
    s.LeadsTo (s.requestOutline uri).1 := by
  refine leadsTo_whenReady s ?_
  have hrequest := leadsTo_request s "textDocument/documentSymbol"
    (.record [("textDocument", .record [("uri", .text uri)])]) s.timeout
  split <;> next heq => rwa [heq] at hrequest

theorem leadsTo_outline (s : Session) (uri : String) : s.LeadsTo (s.outline uri).1 := by
  have hrequest := leadsTo_requestOutline s uri
  unfold outline
  split
  next heq => rwa [heq] at hrequest
  next heq =>
    rw [heq] at hrequest
    exact hrequest.trans (leadsTo_await _ _)

theorem leadsTo_fetchOutline (s : Session) (path : Path) (text languageId : String) :
    s.LeadsTo (s.fetchOutline path text languageId).1 := by
  unfold fetchOutline
  split
  · exact .refl s
  next uri _ =>
    have hopen := leadsTo_openDocument s uri text languageId
    split
    next heq => rwa [heq] at hopen
    next heq =>
      rw [heq] at hopen
      exact hopen.trans ((leadsTo_outline _ uri).trans (leadsTo_closeDocument _ uri))

theorem leadsTo_collect (s : Session) (requests : List (Except Failure Nat)) :
    s.LeadsTo (outlines.collect s requests).1 := by
  induction requests generalizing s with
  | nil => exact .refl s
  | cons r rest ih =>
    cases r with
    | error e => exact ih s
    | ok id => exact (leadsTo_await s id).trans (ih _)

theorem leadsTo_outlines (s : Session) (uris : List String) : s.LeadsTo (s.outlines uris).1 := by
  unfold outlines
  refine LeadsTo.trans ?_ (leadsTo_collect _ _)
  refine List.foldlRecOn uris _
    (motive := fun r : Session × List (Except Failure Nat) => s.LeadsTo r.1) (.refl s) ?_
  intro r hr uri _
  exact hr.trans (leadsTo_requestOutline r.1 uri)

theorem leadsTo_prompt (s : Session) (actions : List Action) : s.LeadsTo (s.prompt actions) := by
  unfold prompt
  split
  · exact .refl s
  · exact .outside s _ _ s.clock s.log

end Session

/-- What can be called on a session, and what its server can do of its own accord. -/
inductive Call
  | start
  | stop
  | request (method : String) (params : Value) (timeout : Duration)
  | notify (method : String) (params : Value)
  | openDocument (uri text languageId : String)
  | closeDocument (uri : String)
  | outline (uri : String)
  | fetchOutline (path : Path) (text languageId : String)
  | outlines (uris : List String)
  /-- Asks for an outline that is waited for later, or never. -/
  | requestOutline (uri : String)
  | collect (requests : List (Except Failure Nat))
  | prompt (actions : List Action)
  /-- Nothing is called, and what can run runs. -/
  | settle

namespace Session

def perform (s : Session) : Call → Session
  | .start => s.start.1
  | .stop => s.stop
  | .request method params timeout => (s.ask method params timeout).1
  | .notify method params => (s.notify method params).1
  | .openDocument uri text languageId => (s.openDocument uri text languageId).1
  | .closeDocument uri => (s.closeDocument uri).1
  | .outline uri => (s.outline uri).1
  | .fetchOutline path text languageId => (s.fetchOutline path text languageId).1
  | .outlines uris => (s.outlines uris).1
  | .requestOutline uri => (s.requestOutline uri).1
  | .collect requests => (outlines.collect s requests).1
  | .prompt actions => s.prompt actions
  | .settle => s.settle

def performAll (s : Session) (calls : List Call) : Session := calls.foldl perform s

theorem leadsTo_perform (s : Session) {c : Call} (hc : c ≠ .start) : s.LeadsTo (s.perform c) := by
  cases c with
  | start => exact absurd rfl hc
  | stop => exact leadsTo_stop s
  | request method params timeout => exact leadsTo_ask s method params timeout
  | notify method params => exact leadsTo_send s _
  | openDocument uri text languageId => exact leadsTo_openDocument s uri text languageId
  | closeDocument uri => exact leadsTo_closeDocument s uri
  | outline uri => exact leadsTo_outline s uri
  | fetchOutline path text languageId => exact leadsTo_fetchOutline s path text languageId
  | outlines uris => exact leadsTo_outlines s uris
  | requestOutline uri => exact leadsTo_requestOutline s uri
  | collect requests => exact leadsTo_collect s requests
  | prompt actions => exact leadsTo_prompt s actions
  | settle => exact leadsTo_settle s

theorem exists_run_perform {s : Session} (hs : s.Idle) (c : Call) :
    ∃ moves, s.run moves = s.perform c := by
  by_cases hc : c = .start
  · subst hc
    rcases start_cases hs with ⟨moves, -, hrun⟩ | ⟨t, result, hgreets, hcap⟩
    · exact ⟨moves, hrun⟩
    · obtain ⟨before, -, rfl⟩ := hgreets.leadsTo hs
      obtain ⟨id, -, after, -, hrun⟩ := hgreets.exists_complete hcap
      exact ⟨before ++ .complete id :: after, by rw [run_append, run_cons, hrun]; rfl⟩
  · obtain ⟨moves, -, hrun⟩ := leadsTo_perform s hc
    exact ⟨moves, hrun⟩

/-- Every sequence of calls is a run. -/
theorem exists_run_performAll {s : Session} (hs : s.Idle) (calls : List Call) :
    ∃ moves, s.run moves = s.performAll calls := by
  induction calls generalizing s with
  | nil => exact ⟨[], rfl⟩
  | cons c rest ih =>
    obtain ⟨before, hbefore⟩ := exists_run_perform hs c
    obtain ⟨after, hafter⟩ := ih (hbefore ▸ hs.run before)
    exact ⟨before ++ after, by rw [run_append, hbefore, hafter]; rfl⟩

end Session

end CodeAtlas.Server
