import CodeAtlas.Extraction
import CodeAtlas.Proofs.Server.Phases

/-!
# How a start ends

A start should leave a session that is ready, or an error of the start and
nothing else: no process, no request, the session stopped. It does so unless it
stumbles, and there are four ways to stumble. The command line is none that a
system could start; the root has no URI; the first answer is given and no record;
or the server does not hear that the session is ready, because it has ended or
the write breaks. A start that stumbles ends with another failure and still holds
the process, if there was one.
-/

namespace CodeAtlas.Server

open Extraction (isStartError)

namespace Session

/-- The session holds a process. -/
structure Held (s : Session) : Prop where
  attached : s.attached = true
  peer : ∃ p, s.peer = some p

theorem Held.send {s : Session} (h : s.Held) (message : Value) : (s.send message).1.Held := by
  refine ⟨(attached_send s message).trans h.attached, ?_⟩
  unfold Session.send
  split
  · split
    · exact ⟨_, rfl⟩
    · exact h.peer
  · exact h.peer

theorem Held.take {s : Session} (h : s.Held) (v : Value) : (s.take v).Held := by
  have hhandle : (s.handle v).1.Held := by
    unfold handle
    split
    · exact h.send _
    · exact h
    · exact h
    · split
      · split
        · exact ⟨h.attached, h.peer⟩
        · exact h
      · exact h
    · exact h
  cases he : (s.handle v).2 with
  | none => rwa [take_of_ok he]
  | some e =>
    rw [take_of_error he]
    exact ⟨hhandle.attached, hhandle.peer⟩

theorem Held.pause {s : Session} (h : s.Held) : s.pause.Held := by
  have hwake : (s.note .pause).wake.Held := by
    unfold wake
    split <;> exact ⟨h.attached, h.peer⟩
  refine pump_induction Held (fun _ _ _ ht => ⟨ht.attached, ht.peer⟩) ?_ _ hwake
  intro t rest v _ ht
  have hrest : ({ t with inbox := rest } : Session).Held := ⟨ht.attached, ht.peer⟩
  exact hrest.take v

theorem Held.request {s : Session} (h : s.Held) (method : String) (params : Value)
    (timeout : Duration) : (s.request method params timeout).1.Held := by
  unfold Session.request
  split
  · let issued := { s with channel := s.channel.issue method (s.clock + timeout) }
    have hissued : issued.Held := ⟨h.attached, h.peer⟩
    have hsend := hissued.send (call method (some issued.channel.lastId) params)
    dsimp only
    split
    next sent e heq =>
      have hsent : sent.Held := by simpa only [issued, heq] using hsend
      exact ⟨hsent.attached, hsent.peer⟩
    next sent heq =>
      have hsent : sent.Held := by simpa only [issued, heq] using hsend
      split
      · exact ⟨hsent.attached, hsent.peer⟩
      · exact hsent
  · exact h

theorem Held.ask {s : Session} (h : s.Held) (method : String) (params : Value)
    (timeout : Duration) : (s.ask method params timeout).1.Held := by
  have hrequest := h.request method params timeout
  unfold Session.ask
  split
  next heq => rwa [heq] at hrequest
  next heq =>
    rw [heq] at hrequest
    unfold await
    dsimp only
    split
    · exact hrequest.pause
    · exact ⟨hrequest.pause.attached, hrequest.pause.peer⟩

theorem held_launched (s : Session) : s.launched.Held := ⟨rfl, _, rfl⟩

theorem writes_actAll (id : Value) (p : Peer) (actions : List Action) :
    (p.actAll id actions).1.writes = p.writes := by
  induction actions generalizing p with
  | nil => rfl
  | cons a rest ih =>
    simp only [Peer.actAll]
    rw [ih]
    cases a <;> rfl

/-- A server counts every message it receives. -/
theorem writes_receive (p : Peer) (method : String) (id : Value) :
    (p.receive method id).1.writes = p.writes + 1 := by
  have hentry : (p.nextEntry method).1.writes = p.writes := by
    unfold Peer.nextEntry
    split <;> rfl
  simp only [Peer.receive, writes_actAll, hentry]

/-- What is written next fails: the process has ended, or this is a write that breaks. -/
def Deaf (s : Session) : Prop :=
  ∃ p, s.peer = some p ∧ (p.alive = false ∨ s.script.breaks (p.writes + 1) = true)

theorem exists_error_send_iff {s : Session} (h : s.Held) (message : Value) :
    (∃ e, (s.send message).2 = some e) ↔ s.Deaf := by
  obtain ⟨hattached, p, hp⟩ := h
  have hdeaf : s.Deaf ↔ p.alive = false ∨ s.script.breaks (p.writes + 1) = true := by
    simp [Deaf, hp]
  rw [hdeaf]
  unfold send
  rw [if_pos hattached, hp]
  dsimp only
  cases halive : p.alive with
  | false => simp
  | true =>
    have hbreaks : (s.deliver p message).writeBreaks = s.script.breaks (p.writes + 1) := by
      rw [← writes_receive p (methodOf message) ((message.field? "id").getD .null)]
      rfl
    simp [hbreaks]

/-- Without a start that goes on, a session begins and stops and does nothing else. -/
theorem LeadsTo.phase_keeps {P : Phase → Prop} (hbegin : P .notStarted → P .starting)
    (hstop : P .stopped) {s t : Session} (h : s.LeadsTo t) (hs : P s.phase) : P t.phase := by
  obtain ⟨moves, hquiet, rfl⟩ := h
  induction moves generalizing s with
  | nil => exact hs
  | cons m rest ih =>
    refine ih ?_ fun n hn => hquiet n (List.mem_cons_of_mem m hn)
    rcases phase_move_cases s m with hp | ⟨hnew, hp⟩ | hp | ⟨id, rfl, -, -⟩
    · rwa [hp]
    · rw [hp]
      exact hbegin (hnew ▸ hs)
    · rwa [hp]
    · have hfirst := hquiet (.complete id) List.mem_cons_self
      cases hfirst

theorem LeadsTo.phase_stopped {s t : Session} (h : s.LeadsTo t) (hs : s.phase = .stopped) :
    t.phase = .stopped :=
  h.phase_keeps (P := (· = .stopped)) Phase.noConfusion rfl hs

theorem LeadsTo.phase_ne_ready {s t : Session} (h : s.LeadsTo t) (hs : s.phase ≠ .ready) :
    t.phase ≠ .ready :=
  h.phase_keeps (P := (· ≠ .ready)) (fun _ => Phase.noConfusion) Phase.noConfusion hs

/-- A session that has been stopped has stopped, holds no process, and nothing waits in it. -/
structure Ended (s : Session) : Prop where
  phase : s.phase = .stopped
  attached : s.attached = false
  waiting : s.channel.waiting = []

/-- A stop ends every session but one that has stopped and holds no process, which it leaves. -/
theorem ended_stop {s : Session} (hopen : ¬(s.phase = .stopped ∧ s.attached = false)) :
    s.stop.Ended := by
  let closed := { s.askToExit.setPhase .stopped with attached := false }
  let quiet := (if s.askToExit.attached then closed.endProcess else closed).cancelReader
  have hstop : s.stop =
      { quiet with reader := .absent, channel := quiet.channel.abort .channelStopped } :=
    if_neg hopen
  have hleads : closed.LeadsTo quiet := by
    refine LeadsTo.trans ?_ (leadsTo_cancelReader _)
    split
    · exact leadsTo_endProcess closed
    · exact .refl closed
  have hdetached : quiet.attached = false := by
    rw [attached_cancelReader]
    split
    · exact attached_endProcess closed
    · rfl
  rw [hstop]
  exact ⟨hleads.phase_stopped rfl, hdetached, rfl⟩

theorem Held.ended_stop {s : Session} (h : s.Held) : s.stop.Ended := by
  refine Session.ended_stop ?_
  rintro ⟨-, hdetached⟩
  rw [h.attached] at hdetached
  cases hdetached

/-- A start ends as it should: the session is ready, or there is an error of the start and the
session has ended. -/
inductive EndsWell : Session × Option Failure → Prop
  | ready {t : Session} (hphase : t.phase = .ready) : EndsWell (t, none)
  | refused {t : Session} {e : LinkError} (he : isStartError e = true) (ht : t.Ended) :
    EndsWell (t, some (.link e))

/-- What keeps a start from ending as it should. -/
inductive Stumbles (s : Session) : Prop
  /-- There is no process, because no system could start one for the command line. -/
  | line {f : LineFault} (hline : s.spawnFault? = some (.line f))
  /-- The process is there, but the root is no path that a file can have. -/
  | root (hspawns : s.spawnFault? = none) (huri : s.root.uri? = none)
  /-- The server answers with something that is given and no record. -/
  | answer {t : Session} {result : Value} (hgreets : s.Greets t result)
    (hgiven : result.isGiven = true) (hresult : ∀ fields, result ≠ .record fields)
  /-- The server does not hear that the session is ready. -/
  | notice {t : Session} {result : Value} (hgreets : s.Greets t result)
    (hresult : result.isGiven = true → ∃ fields, result = .record fields) (hdeaf : t.Deaf)

theorem capabilitiesOf?_eq_none_iff (v : Value) :
    capabilitiesOf? v = none ↔ v.isGiven = true ∧ ∀ fields, v ≠ .record fields := by
  unfold capabilitiesOf?
  cases hgiven : v.isGiven with
  | false => simp
  | true => cases v <;> simp

theorem exists_capabilitiesOf?_iff (v : Value) :
    (∃ capabilities, capabilitiesOf? v = some capabilities) ↔
      (v.isGiven = true → ∃ fields, v = .record fields) := by
  rw [← Option.ne_none_iff_exists', Ne, capabilitiesOf?_eq_none_iff]
  simp

theorem Greets.held {s t : Session} {result : Value} (h : s.Greets t result) : t.Held := by
  obtain ⟨-, -, uri, -, hask⟩ := h
  have hheld := (held_launched s).ask "initialize" (s.launched.initializeParams uri) s.timeout
  rwa [hask] at hheld

/-- What a start that stumbles leaves: the session still holds the process, or there has been none
and the session only says that it is starting. -/
def Stranded (s : Session) : Prop :=
  s.start.1.Held ∨
    ∃ f, s.spawnFault? = some (.line f) ∧ s.start = (s.setPhase .starting, some (.line f))

/-- A start that stumbles ends with a failure that is none of a start. -/
theorem Stumbles.stranded {s : Session} (h : s.Stumbles) (hphase : s.phase = .notStarted) :
    s.Stranded ∧ ∃ f, s.start.2 = some f ∧ ∀ e, f = .link e → isStartError e = false := by
  cases h with
  | line hline =>
    have hstart := start_of_line hphase hline
    refine ⟨.inr ⟨_, hline, hstart⟩, ?_⟩
    rw [hstart]
    exact ⟨_, rfl, fun e he => by cases he⟩
  | root hspawns huri =>
    have hroot : s.launched.root.uri? = none := huri
    rw [Stranded, start_eq_introduce hphase hspawns, introduce, hroot]
    exact ⟨.inl (held_launched s), _, rfl, fun e he => by cases he⟩
  | @answer t result hgreets hgiven hresult =>
    have hcap := (capabilitiesOf?_eq_none_iff result).mpr ⟨hgiven, hresult⟩
    rw [Stranded, hgreets.start, completeStart, hcap]
    exact ⟨.inl hgreets.held, _, rfl, fun e he => by cases he⟩
  | @notice t result hgreets hresult hdeaf =>
    obtain ⟨capabilities, hcap⟩ := (exists_capabilitiesOf?_iff result).mpr hresult
    let ready := { t with capabilities }.setPhase .ready
    have hheld : ready.Held := ⟨hgreets.held.attached, hgreets.held.peer⟩
    obtain ⟨e, he⟩ :=
      (exists_error_send_iff hheld (call "initialized" none (.record []))).mpr hdeaf
    rw [Stranded, hgreets.start, completeStart, hcap]
    refine ⟨.inl (hheld.send _), .link e, congrArg (Option.map Failure.link) he, ?_⟩
    rintro _ ⟨⟩
    obtain ⟨reason, rfl⟩ := exists_unsentError_of_send he
    cases reason <;> rfl

theorem Stumbles.not_endsWell {s : Session} (h : s.Stumbles) (hphase : s.phase = .notStarted) :
    ¬EndsWell s.start := by
  obtain ⟨-, f, hf, hno⟩ := h.stranded hphase
  intro hwell
  generalize s.start = ended at hwell hf
  cases hwell with
  | ready => cases hf
  | refused he =>
    rw [hno _ (Option.some.inj hf).symm] at he
    cases he

/-- A start that is answered goes well if the answer brings capabilities and the server hears that
the session is ready. -/
theorem Greets.endsWell_or_stumbles {s t : Session} {result : Value} (h : s.Greets t result) :
    EndsWell s.start ∨ s.Stumbles := by
  rw [h.start, completeStart]
  cases hcap : capabilitiesOf? result with
  | none =>
    obtain ⟨hgiven, hresult⟩ := (capabilitiesOf?_eq_none_iff result).mp hcap
    exact .inr (.answer h hgiven hresult)
  | some capabilities =>
    let ready := { t with capabilities }.setPhase .ready
    have hheld : ready.Held := ⟨h.held.attached, h.held.peer⟩
    have hphase : (ready.notify "initialized" (.record [])).1.phase = .ready := phase_send ready _
    have hdeaf := (exists_error_send_iff hheld (call "initialized" none (.record []))).mp
    change EndsWell ((ready.notify "initialized" (.record [])).1,
      (ready.notify "initialized" (.record [])).2.map .link) ∨ _
    cases hnotice : (ready.notify "initialized" (.record [])).2 with
    | none => exact .inl (.ready hphase)
    | some e =>
      have hresult := (exists_capabilitiesOf?_iff result).mp ⟨capabilities, hcap⟩
      exact .inr (.notice h hresult (hdeaf ⟨e, hnotice⟩))

theorem endsWell_or_stumbles_of_spawned {s : Session} (hphase : s.phase = .notStarted)
    (hspawns : s.spawnFault? = none) : EndsWell s.start ∨ s.Stumbles := by
  cases huri : s.root.uri? with
  | none => exact .inr (.root hspawns huri)
  | some uri =>
    have hroot : s.launched.root.uri? = some uri := huri
    have hheld := (held_launched s).ask "initialize" (s.launched.initializeParams uri)
      s.launched.timeout
    cases hask : s.launched.ask "initialize" (s.launched.initializeParams uri)
        s.launched.timeout with
    | mk t o =>
      cases o with
      | answer result =>
        have hgreets : s.Greets t result := ⟨hphase, hspawns, uri, huri, hask⟩
        exact hgreets.endsWell_or_stumbles
      | failure e =>
        left
        rw [hask] at hheld
        rw [start_eq_introduce hphase hspawns, introduce, hroot]
        dsimp only
        rw [hask]
        exact .refused rfl hheld.ended_stop

theorem endsWell_or_stumbles {s : Session} (hphase : s.phase = .notStarted)
    (hattached : s.attached = false) (hwaiting : s.channel.waiting = []) :
    EndsWell s.start ∨ s.Stumbles := by
  cases hspawns : s.spawnFault? with
  | none => exact endsWell_or_stumbles_of_spawned hphase hspawns
  | some fault =>
    cases fault with
    | line f => exact .inr (.line hspawns)
    | system reason =>
      left
      rw [start_of_system hphase hspawns]
      exact .refused rfl ⟨rfl, hattached, hwaiting⟩

/-- From a session in which nothing waits, a start ends as it should exactly if it does not
stumble. -/
theorem endsWell_start_iff {s : Session} (hphase : s.phase = .notStarted)
    (hattached : s.attached = false) (hwaiting : s.channel.waiting = []) :
    EndsWell s.start ↔ ¬s.Stumbles :=
  ⟨fun hwell hstumbles => hstumbles.not_endsWell hphase hwell,
    (endsWell_or_stumbles hphase hattached hwaiting).resolve_right⟩

/-- A session that has not been started has no reader and no process, and nothing waits in it. -/
structure Fresh (s : Session) : Prop where
  phase : s.phase = .notStarted
  reader : s.reader = .absent
  attached : s.attached = false
  waiting : s.channel.waiting = []

theorem IsNew.fresh {s : Session} (hs : s.IsNew) : s.Fresh where
  phase := by rw [phase, hs.channel]
  reader := hs.reader
  attached := hs.attached
  waiting := by rw [hs.channel]

theorem Fresh.send {s : Session} (h : s.Fresh) (message : Value) : (s.send message).1 = s := by
  rw [Session.send, if_neg (by rw [h.attached]; exact Bool.false_ne_true)]

theorem Fresh.settle {s : Session} (h : s.Fresh) : s.settle = s := by
  have hwake : s.wake = s := if_neg (by rw [h.reader]; exact ReaderState.noConfusion)
  rw [Session.settle, hwake]
  exact pump_of_not_running (by rw [h.reader]; exact ReaderState.noConfusion)

theorem Fresh.await {s : Session} (h : s.Fresh) (id : Nat) : (s.await id).1.Fresh := by
  have hnoted : (s.note .pause).Fresh := ⟨h.phase, h.reader, h.attached, h.waiting⟩
  have hpause : s.pause = s.note .pause := hnoted.settle
  unfold Session.await
  rw [hpause]
  dsimp only
  split
  · exact hnoted
  · refine ⟨h.phase, h.reader, h.attached, ?_⟩
    simp only [advance, Channel.expire, hnoted.waiting, List.filter_nil]

theorem Fresh.request {s : Session} (h : s.Fresh) (method : String) (params : Value)
    (timeout : Duration) :
    s.request method params timeout = (s, .error (.notReady .notStarted)) := by
  unfold Session.request
  rw [h.phase]
  rfl

theorem Fresh.whenReady {α : Type} {s : Session} (h : s.Fresh)
    (act : Session → Session × Except Failure α) :
    s.whenReady act = (s, .error (.link (.notReady .notStarted))) := by
  unfold Session.whenReady isReady
  rw [h.phase]
  rfl

theorem Fresh.outline {s : Session} (h : s.Fresh) (uri : String) : (s.outline uri).1 = s := by
  rw [Session.outline, requestOutline, h.whenReady]

theorem Fresh.fetchOutline {s : Session} (h : s.Fresh) (path : Path) (text languageId : String) :
    (s.fetchOutline path text languageId).1 = s := by
  unfold Session.fetchOutline
  split
  · rfl
  · rw [openDocument, h.whenReady]

theorem Fresh.collect {s : Session} (h : s.Fresh) (requests : List (Except Failure Nat)) :
    (outlines.collect s requests).1.Fresh := by
  induction requests generalizing s with
  | nil => exact h
  | cons r rest ih =>
    cases r with
    | error e => exact ih h
    | ok id => exact ih (h.await id)

theorem Fresh.outlines {s : Session} (h : s.Fresh) (uris : List String) :
    (s.outlines uris).1.Fresh := by
  unfold Session.outlines
  refine Fresh.collect ?_ _
  refine List.foldlRecOn uris _
    (motive := fun r : Session × List (Except Failure Nat) => r.1.Fresh) h ?_
  intro r hr uri _
  dsimp only
  rw [requestOutline, hr.whenReady]
  exact hr

theorem LeadsTo.phase_ne_notStarted {s t : Session} (h : s.LeadsTo t)
    (hs : s.phase ≠ .notStarted) : t.phase ≠ .notStarted := by
  obtain ⟨moves, -, rfl⟩ := h
  induction moves generalizing s with
  | nil => exact hs
  | cons m rest ih =>
    refine ih ?_
    rcases phase_move_cases s m with hp | ⟨hp, -⟩ | hp | ⟨id, -, -, hp⟩
    · rwa [hp]
    · exact absurd hp hs
    · rw [hp]
      exact Phase.noConfusion
    · rw [hp]
      exact Phase.noConfusion

theorem phase_introduce_ne_notStarted (s : Session) :
    s.launched.introduce.1.phase ≠ .notStarted := by
  have hlaunched : s.launched.phase ≠ .notStarted := Phase.noConfusion
  unfold introduce
  split
  · exact hlaunched
  next uri _ =>
    have hasked := (leadsTo_ask s.launched "initialize" (s.launched.initializeParams uri)
      s.launched.timeout).phase_ne_notStarted hlaunched
    split
    next t result heq =>
      rw [heq] at hasked
      unfold completeStart
      split
      · exact hasked
      · exact (phase_send _ _).trans_ne Phase.noConfusion
    next t e heq =>
      rw [heq] at hasked
      exact (leadsTo_stop t).phase_ne_notStarted hasked

theorem phase_start_ne_notStarted (s : Session) : s.start.1.phase ≠ .notStarted := by
  by_cases hphase : s.phase = .notStarted
  case neg => rwa [start, if_neg hphase]
  cases hspawns : s.spawnFault? with
  | none =>
    rw [start_eq_introduce hphase hspawns]
    exact phase_introduce_ne_notStarted s
  | some fault =>
    cases fault with
    | line f =>
      rw [start_of_line hphase hspawns]
      exact Phase.noConfusion
    | system reason =>
      rw [start_of_system hphase hspawns]
      exact Phase.noConfusion

/-- A call leaves a session that has not been started as it is in all that counts, or starts or
stops it. -/
theorem Fresh.perform {s : Session} (h : s.Fresh) (c : Call) :
    (s.perform c).Fresh ∨ (s.perform c).phase ≠ .notStarted := by
  cases c with
  | start => exact .inr (phase_start_ne_notStarted s)
  | stop =>
    right
    have hopen : ¬(s.phase = .stopped ∧ s.attached = false) := by
      rintro ⟨hstopped, -⟩
      cases h.phase.symm.trans hstopped
    exact (ended_stop hopen).phase.trans_ne Phase.noConfusion
  | request method params timeout =>
    left
    rw [Session.perform, ask, h.request]
    exact h
  | notify method params =>
    left
    have hsent : s.perform (.notify method params) = s := h.send _
    rwa [hsent]
  | openDocument | closeDocument | requestOutline =>
    left
    simp only [Session.perform, openDocument, closeDocument, requestOutline, h.whenReady]
    exact h
  | outline uri =>
    left
    rwa [Session.perform, h.outline]
  | fetchOutline path text languageId =>
    left
    rwa [Session.perform, h.fetchOutline]
  | outlines uris => exact .inl (h.outlines uris)
  | collect requests => exact .inl (h.collect requests)
  | prompt actions =>
    left
    unfold Session.perform prompt
    dsimp only
    split
    · exact h
    · exact ⟨h.phase, h.reader, h.attached, h.waiting⟩
  | settle =>
    left
    rwa [Session.perform, h.settle]

theorem phase_perform_ne_notStarted {s : Session} (hs : s.phase ≠ .notStarted) (c : Call) :
    (s.perform c).phase ≠ .notStarted := by
  by_cases hc : c = .start
  · subst hc
    exact phase_start_ne_notStarted s
  · exact (leadsTo_perform s hc).phase_ne_notStarted hs

/-- As long as the calls on a new session have not started it, it is as good as new. -/
theorem IsNew.fresh_performAll {s : Session} (hs : s.IsNew) (calls : List Call)
    (hphase : (s.performAll calls).phase = .notStarted) : (s.performAll calls).Fresh := by
  have hinv : (s.performAll calls).Fresh ∨ (s.performAll calls).phase ≠ .notStarted := by
    refine List.foldlRecOn calls _
      (motive := fun t : Session => t.Fresh ∨ t.phase ≠ .notStarted) (.inl hs.fresh) ?_
    rintro t (ht | ht) c _
    · exact ht.perform c
    · exact .inr (phase_perform_ne_notStarted ht c)
  exact hinv.resolve_right (absurd hphase)

/-- A session whose server cannot be started. -/
def absentSession : Session where
  command := [.text "srv"]
  root := ⟨"/", ["w", "p"]⟩
  script := { spawnFault? := fun _ _ => some (.missing "srv") }

/-- The session when it starts to wait and the reader is about to run. -/
def listening (s : Session) : Session := (s.note .pause).wake

/-- The wait for an answer is over when the reader finds the answer and nothing else. -/
theorem await_of_reply {s : Session} {id : Nat} (v : Value) (rest : List UInt8) {o : Outcome}
    (hr : s.listening.reader = .running)
    (hread : read s.listening.outputClosed s.listening.inbox = .message v rest)
    (hr' : ({ s.listening with inbox := rest }.take v).reader = .running)
    (hread' : read ({ s.listening with inbox := rest }.take v).outputClosed
      ({ s.listening with inbox := rest }.take v).inbox = .waiting)
    (ho : ({ s.listening with inbox := rest }.take v).channel.outcome? id = some o) :
    s.await id = ({ s.listening with inbox := rest }.take v, o) := by
  have hpause : s.pause = { s.listening with inbox := rest }.take v := by
    change s.listening.pump = _
    rw [pump_of_message hr hread, pump_of_waiting hr' hread']
  rw [await, hpause]
  dsimp only
  rw [ho]

/-- A server greets back when its answer to the first request ends the wait for it. -/
theorem greets_of_await {s t : Session} (uri : String) (id : Nat) {result : Value}
    (hphase : s.phase = .notStarted) (hspawns : s.spawnFault? = none)
    (huri : s.root.uri? = some uri)
    (hid : (s.launched.request "initialize" (s.launched.initializeParams uri) s.timeout).2 =
      .ok id)
    (hawait : (s.launched.request "initialize" (s.launched.initializeParams uri)
      s.timeout).1.await id = (t, .answer result)) :
    s.Greets t result := by
  refine ⟨hphase, hspawns, uri, huri, ?_⟩
  rw [ask]
  generalize s.launched.request "initialize" (s.launched.initializeParams uri) s.timeout = r
    at hid hawait ⊢
  obtain ⟨sent, outcome⟩ := r
  obtain rfl : outcome = .ok id := hid
  exact hawait

/-- A session whose server answers its first request with a list. -/
def listSession : Session where
  command := [.text "srv"]
  root := ⟨"/", ["w", "p"]⟩
  languageId := "javascript"
  script := { replies := .ofPairs [("initialize", [[.result (.list [.integer 1])]])] }

theorem greets_listSession :
    ∃ t, listSession.Greets t (.list [.integer 1]) ∧ t.phase = .starting ∧
      t.attached = true := by
  have hgreets := greets_of_await (s := listSession) "file:///w/p" 1 rfl rfl (by decide +kernel)
    rfl (await_of_reply (Peer.reply (.integer 1) "result" (.list [.integer 1])) []
      (by decide +kernel) (by decide +kernel) (by decide +kernel) (by decide +kernel) rfl)
  exact ⟨_, hgreets, rfl, rfl⟩

end Session

end CodeAtlas.Server
