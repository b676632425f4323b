import CodeAtlas.Proofs.Server.Requests

/-!
# How the phases of a session follow each other

A session starts, becomes ready and stops, in this order and for good, with one
exception: a start that waits for its first answer goes on when it gets it, even
if the output has ended right behind the answer and the session has stopped.
Such a start leaves a session that is ready and has no reader. Without it the
phases only go forward, and a session is ready only as long as its reader runs.
-/

namespace CodeAtlas.Server

/-- The place of a phase in the order of the phases. -/
def Phase.rank : Phase → Nat
  | notStarted => 0
  | starting => 1
  | ready => 2
  | stopped => 3

namespace Session

/-- The phases along a run, with those of its first and last session. -/
def phases (s : Session) : List Move → List Phase
  | [] => [s.phase]
  | m :: rest => s.phase :: (s.move m).phases rest

/-- No phase along a run comes after one that it precedes in the order. -/
def Forward (s : Session) (moves : List Move) : Prop :=
  (s.phases moves).IsChain fun p q => p.rank ≤ q.rank

/-- A start goes on in a session that has already stopped. -/
def Revives (s : Session) (m : Move) : Prop :=
  s.phase = .stopped ∧ ∃ id, m = .complete id ∧ (s.capabilitiesFrom? id).isSome = true

/-- No move of a run makes a start go on in a session that has already stopped. -/
def Steady (s : Session) (moves : List Move) : Prop :=
  ∀ before m after, moves = before ++ m :: after → ¬(s.run before).Revives m

theorem steady_nil (s : Session) : s.Steady [] := by
  intro before m after h
  simp at h

theorem steady_cons_iff {s : Session} {m : Move} {rest : List Move} :
    s.Steady (m :: rest) ↔ ¬s.Revives m ∧ (s.move m).Steady rest := by
  constructor
  · intro h
    refine ⟨h [] m rest rfl, ?_⟩
    rintro before n after rfl
    exact h (m :: before) n after rfl
  · rintro ⟨hm, hrest⟩ before n after heq
    cases before with
    | nil =>
      obtain ⟨rfl, rfl⟩ := List.cons.inj heq
      exact hm
    | cons k before =>
      obtain ⟨rfl, rfl⟩ := List.cons.inj heq
      exact hrest before n after rfl

theorem steady_append_iff {s : Session} {before after : List Move} :
    s.Steady (before ++ after) ↔ s.Steady before ∧ (s.run before).Steady after := by
  induction before generalizing s with
  | nil => simp [steady_nil]
  | cons m rest ih => rw [List.cons_append, steady_cons_iff, steady_cons_iff, ih, and_assoc]; rfl

theorem steady_of_isComplete_eq_false {s : Session} {moves : List Move}
    (h : ∀ m ∈ moves, m.isComplete = false) : s.Steady moves := by
  rintro before m after rfl ⟨-, id, rfl, -⟩
  have hm := h (.complete id) (by simp)
  cases hm

/-- One move goes back exactly if it makes a start go on in a stopped session. -/
theorem rank_le_rank_move_iff (s : Session) (m : Move) :
    s.phase.rank ≤ (s.move m).phase.rank ↔ ¬s.Revives m := by
  constructor
  · rintro h ⟨hstopped, id, rfl, hfrom⟩
    obtain ⟨capabilities, hcap⟩ := Option.isSome_iff_exists.mp hfrom
    have hready : (s.move (.complete id)).phase = .ready := by
      simp only [move, hcap]
      rfl
    rw [hstopped, hready] at h
    exact absurd h (by decide)
  · intro h
    rcases phase_move_cases s m with hp | ⟨hn, -⟩ | hp | ⟨id, rfl, hfrom, hp⟩
    · exact Nat.le_of_eq (congrArg Phase.rank hp.symm)
    · rw [hn]
      exact Nat.zero_le _
    · rw [hp]
      cases s.phase <;> decide
    · rw [hp]
      have hlive : s.phase ≠ .stopped := fun hstopped => h ⟨hstopped, id, rfl, hfrom⟩
      revert hlive
      cases s.phase <;> decide

theorem forward_iff_steady (s : Session) (moves : List Move) :
    s.Forward moves ↔ s.Steady moves := by
  induction moves generalizing s with
  | nil => simp [Forward, phases, steady_nil]
  | cons m rest ih =>
    rw [steady_cons_iff, ← ih, ← rank_le_rank_move_iff, Forward, Forward, phases]
    cases rest <;> simp [phases]

/-- No reply has ended a request. -/
def Unanswered (s : Session) : Prop := ∀ d ∈ s.channel.ended, d.2.fromServer = false

/-- How far a session has come. As long as it has not stopped, nothing has been answered before its
reader runs. -/
inductive Stage (s : Session) : Prop
  | stopped (h : s.phase = .stopped)
  | waiting (hphase : s.phase ≠ .ready)
    (hreader : s.reader = .absent ∧ s.attached = false ∨ s.reader = .scheduled ∧ s.attached = true)
    (hended : s.Unanswered)
  | running (hreader : s.reader = .running) (hattached : s.attached = true)

theorem Stage.reader_of_ready {s : Session} (h : s.Stage) (hready : s.phase = .ready) :
    s.reader = .running := by
  cases h with
  | stopped hstopped => rw [hready] at hstopped; cases hstopped
  | waiting hphase => exact absurd hready hphase
  | running hreader => exact hreader

theorem IsNew.stage {s : Session} (hs : s.IsNew) : s.Stage := by
  refine .waiting ?_ (.inl ⟨hs.reader, hs.attached⟩) ?_
  · rw [phase, hs.channel]
    exact Phase.noConfusion
  · rw [Unanswered, hs.channel]
    simp

/-- Nothing is answered while no reader runs. -/
theorem Unanswered.move {s : Session} (h : s.Unanswered) (hs : s.channel.Balanced)
    (hr : s.reader ≠ .running) (m : Move) : (s.move m).Unanswered := by
  rcases channel_move_cases hs m with ⟨method, deadline, -, hc⟩ |
    ⟨fields, id, o, -, hmeets, -, -⟩ | ⟨-, done, he, hd⟩
  · rwa [Unanswered, hc]
  · exact absurd hmeets.running hr
  · intro d hmem
    rw [he.ended, List.mem_append] at hmem
    exact hmem.elim (h d) (hd d)

/-- A move keeps the reader, or ends it for good with the session, or brings it one step on. -/
theorem reader_move_cases (s : Session) (m : Move) :
    (s.move m).phase = .stopped ∨
    ((s.move m).reader = s.reader ∧ (s.move m).attached = s.attached) ∨
    (s.reader = .absent ∧ (s.move m).reader = .scheduled ∧ (s.move m).attached = true) ∨
    (s.reader = .scheduled ∧ (s.move m).attached = s.attached ∧
      (s.move m).reader = if s.attached then .running else .done) ∨
    (s.attached = false ∧ (s.move m).reader = .absent ∧ (s.move m).attached = false) := by
  cases m with
  | outside | register | unsent | timeout | time => exact .inr (.inl ⟨rfl, rfl⟩)
  | spawnFails | close => exact .inl rfl
  | begin | complete =>
    right; left
    simp only [move]
    split <;> exact ⟨rfl, rfl⟩
  | spawn =>
    right
    simp only [move]
    split
    next h => exact .inr (.inl ⟨h.2, rfl, rfl⟩)
    next => exact .inl ⟨rfl, rfl⟩
  | wake =>
    right
    simp only [move, wake]
    split
    next h => exact .inr (.inr (.inl ⟨h, rfl, rfl⟩))
    next => exact .inl ⟨rfl, rfl⟩
  | message v =>
    simp only [move]
    split
    · rcases take_cases s v with ⟨e, -, -, hc⟩ | ⟨id, o, -, -, hr, -⟩ | ⟨hr, -⟩
      · exact .inl (by rw [phase, hc])
      · exact .inr (.inl ⟨hr, attached_take s v⟩)
      · exact .inr (.inl ⟨hr, attached_take s v⟩)
    · exact .inr (.inl ⟨rfl, rfl⟩)
  | streamEnds error =>
    simp only [move]
    split
    · exact .inl rfl
    · exact .inr (.inl ⟨rfl, rfl⟩)
  | drop =>
    right
    simp only [move]
    split
    next h => exact .inr (.inr (.inr ⟨h, rfl, h⟩))
    next => exact .inl ⟨rfl, rfl⟩

/-- A start that goes on has an answer, so it cannot do so before the reader runs. -/
theorem Unanswered.capabilitiesFrom? {s : Session} (h : s.Unanswered) (id : Nat) :
    s.capabilitiesFrom? id = none := by
  unfold Session.capabilitiesFrom?
  split
  next result ho =>
    have hfrom := h _ (Channel.mem_ended_of_outcome? ho)
    cases hfrom
  next => rfl

theorem Stage.move {s : Session} (h : s.Stage) (hs : s.channel.Balanced) {m : Move}
    (hm : ¬s.Revives m) : (s.move m).Stage := by
  by_cases hstopped : (s.move m).phase = .stopped
  · exact .stopped hstopped
  cases h with
  | stopped hphase =>
    -- only a start that goes on leaves a stopped session
    rw [← rank_le_rank_move_iff, hphase] at hm
    cases hp : (s.move m).phase <;> rw [hp] at hm <;> first
      | exact absurd hm (by decide)
      | exact .stopped hp
  | waiting hphase hreader hended =>
    have hr : s.reader ≠ .running := by
      rcases hreader with ⟨h, -⟩ | ⟨h, -⟩ <;> rw [h] <;> exact ReaderState.noConfusion
    have hended' := hended.move hs hr m
    have hphase' : (s.move m).phase ≠ .ready := by
      rcases phase_move_cases s m with hp | ⟨-, hp⟩ | hp | ⟨id, rfl, hfrom, -⟩
      · rwa [hp]
      · rw [hp]; exact Phase.noConfusion
      · rw [hp]; exact Phase.noConfusion
      · rw [hended.capabilitiesFrom? id] at hfrom
        cases hfrom
    rcases reader_move_cases s m with hp | ⟨hr', ha⟩ | ⟨-, hr', ha⟩ | ⟨hscheduled, ha, hr'⟩ |
      ⟨-, hr', ha⟩
    · exact absurd hp hstopped
    · exact .waiting hphase' (by rwa [hr', ha]) hended'
    · exact .waiting hphase' (.inr ⟨hr', ha⟩) hended'
    · have hattached : s.attached = true := by
        rcases hreader with ⟨habsent, -⟩ | ⟨-, h⟩
        · rw [hscheduled] at habsent
          cases habsent
        · exact h
      exact .running (by rw [hr', if_pos hattached]) (ha.trans hattached)
    · exact .waiting hphase' (.inl ⟨hr', ha⟩) hended'
  | running hreader hattached =>
    rcases reader_move_cases s m with hp | ⟨hr', ha⟩ | ⟨habsent, -⟩ | ⟨hscheduled, -⟩ |
      ⟨hdetached, -⟩
    · exact absurd hp hstopped
    · exact .running (hr'.trans hreader) (ha.trans hattached)
    · rw [hreader] at habsent; cases habsent
    · rw [hreader] at hscheduled; cases hscheduled
    · rw [hattached] at hdetached; cases hdetached

theorem Stage.run {s : Session} (h : s.Stage) (hs : s.channel.Balanced) {moves : List Move}
    (hm : s.Steady moves) : (s.run moves).Stage := by
  induction moves generalizing s with
  | nil => exact h
  | cons m rest ih =>
    obtain ⟨hfirst, hrest⟩ := steady_cons_iff.mp hm
    exact ih (h.move hs hfirst) (balanced_move hs m) hrest

/-- By the time that a start gets the answer to its first request the session has stopped. -/
def Overtaken (s : Session) : Prop :=
  ∃ t result, s.Greets t result ∧ (capabilitiesOf? result).isSome = true ∧ t.phase = .stopped

/-- The run of a start that is answered revives the session exactly if it is overtaken. -/
theorem Greets.exists_run {s t : Session} {result : Value} (h : s.Greets t result)
    (hcap : (capabilitiesOf? result).isSome = true) (hs : s.Idle) :
    ∃ moves, s.run moves = s.start.1 ∧ (s.Steady moves ↔ t.phase ≠ .stopped) := by
  obtain ⟨before, hbefore, rfl⟩ := h.leadsTo hs
  obtain ⟨id, hfrom, after, hafter, hrun⟩ := h.exists_complete hcap
  refine ⟨before ++ .complete id :: after, by rw [run_append, run_cons, hrun], ?_⟩
  rw [steady_append_iff, steady_cons_iff]
  constructor
  · rintro ⟨-, hlive, -⟩ hstopped
    exact hlive ⟨hstopped, id, rfl, hfrom⟩
  · intro hlive
    exact ⟨steady_of_isComplete_eq_false hbefore, fun hrevives => hlive hrevives.1,
      steady_of_isComplete_eq_false hafter⟩

theorem exists_steady_start {s : Session} (hs : s.Idle) (h : ¬s.Overtaken) :
    ∃ moves, s.run moves = s.start.1 ∧ s.Steady moves := by
  rcases start_cases hs with ⟨moves, hquiet, hrun⟩ | ⟨t, result, hgreets, hcap⟩
  · exact ⟨moves, hrun, steady_of_isComplete_eq_false hquiet⟩
  · obtain ⟨moves, hrun, hsteady⟩ := hgreets.exists_run hcap hs
    exact ⟨moves, hrun, hsteady.mpr fun hstopped => h ⟨t, result, hgreets, hcap, hstopped⟩⟩

theorem exists_steady_performAll {s : Session} (hs : s.Idle) {calls : List Call}
    (h : ∀ before after, calls = before ++ .start :: after → ¬(s.performAll before).Overtaken) :
    ∃ moves, s.run moves = s.performAll calls ∧ s.Steady moves := by
  induction calls generalizing s with
  | nil => exact ⟨[], rfl, steady_nil s⟩
  | cons c rest ih =>
    obtain ⟨first, hfirst, hsteady⟩ : ∃ moves, s.run moves = s.perform c ∧ s.Steady moves := by
      by_cases hc : c = .start
      · subst hc
        exact exists_steady_start hs (h [] rest rfl)
      · obtain ⟨moves, hquiet, hrun⟩ := leadsTo_perform s hc
        exact ⟨moves, hrun, steady_of_isComplete_eq_false hquiet⟩
    obtain ⟨later, hlater, hsteady'⟩ := ih (hfirst ▸ hs.run first)
      fun before after heq => h (c :: before) after (by rw [heq]; rfl)
    refine ⟨first ++ later, by rw [run_append, hfirst, hlater]; rfl, ?_⟩
    rw [steady_append_iff, hfirst]
    exact ⟨hsteady, hsteady'⟩

theorem phase_send (s : Session) (message : Value) : (s.send message).1.phase = s.phase :=
  congrArg Channel.phase (channel_send s message)

theorem phase_request (s : Session) (method : String) (params : Value) (timeout : Duration) :
    (s.request method params timeout).1.phase = s.phase := by
  unfold request
  split
  · let issued := { s with channel := s.channel.issue method (s.clock + timeout) }
    have hsend : (issued.send (call method (some issued.channel.lastId) params)).1.phase =
      s.phase := phase_send issued _
    dsimp only
    split
    next sent e heq =>
      have hsent : sent.phase = s.phase := by simpa only [issued, heq] using hsend
      exact (phase_finish _ _ _).trans hsent
    next sent heq =>
      have hsent : sent.phase = s.phase := by simpa only [issued, heq] using hsend
      split
      · exact (phase_finish _ _ _).trans hsent
      · exact hsent
  · rfl

/-- A message or the end of the output stops a session only with its reader. -/
theorem reader_pump_of_stopped {s : Session} (h : s.phase ≠ .stopped)
    (hstopped : s.pump.phase = .stopped) : s.pump.reader ≠ .running := by
  refine pump_induction (fun t => t.phase = .stopped → t.reader ≠ .running) ?_ ?_ s
    (fun hs => absurd hs h) hstopped
  · intro t error hr ht hphase
    exact ReaderState.noConfusion
  · intro t rest v hr ht hphase
    have hlive : t.phase ≠ .stopped := fun hp => ht hp hr
    rcases take_cases { t with inbox := rest } v with ⟨e, -, hdone, -⟩ |
      ⟨id, o, -, -, -, hc⟩ | ⟨-, hc⟩
    · rw [hdone]
      exact ReaderState.noConfusion
    · rw [phase, hc, phase_finish] at hphase
      exact absurd hphase hlive
    · rw [phase, hc] at hphase
      exact absurd hphase hlive

theorem phase_wake (s : Session) : s.wake.phase = s.phase := by
  unfold wake
  split <;> rfl

theorem reader_await_of_stopped {s : Session} (h : s.phase ≠ .stopped) (id : Nat)
    (hstopped : (s.await id).1.phase = .stopped) : (s.await id).1.reader ≠ .running := by
  have hpause : s.pause.phase = .stopped → s.pause.reader ≠ .running :=
    reader_pump_of_stopped ((phase_wake (s.note .pause)).trans_ne h)
  unfold await at hstopped ⊢
  dsimp only at hstopped ⊢
  split at hstopped <;> exact hpause hstopped

/-- An overtaken start leaves a session that is ready and has no reader, after it had stopped. -/
theorem Overtaken.start {s : Session} (h : s.Overtaken) (hs : s.Idle) :
    s.start.1.phase = .ready ∧ s.start.1.reader ≠ .running ∧
      ∃ moves, s.run moves = s.start.1 ∧ ¬s.Forward moves := by
  obtain ⟨t, result, hgreets, hcap, hstopped⟩ := h
  obtain ⟨moves, hrun, hsteady⟩ := hgreets.exists_run hcap hs
  obtain ⟨capabilities, hcap⟩ := Option.isSome_iff_exists.mp hcap
  have hreader : t.reader ≠ .running := by
    obtain ⟨-, -, uri, -, hask⟩ := hgreets
    unfold ask at hask
    split at hask
    · cases hask
    next sent id heq =>
      have hlive : sent.phase ≠ .stopped := by
        have hphase := phase_request s.launched "initialize" (s.launched.initializeParams uri)
          s.timeout
        rw [heq] at hphase
        rw [hphase]
        exact Phase.noConfusion
      have hawait := reader_await_of_stopped hlive id
      rw [hask] at hawait
      exact hawait hstopped
  refine ⟨?_, ?_, moves, hrun, ?_⟩
  · rw [hgreets.start, completeStart, hcap]
    exact phase_send _ _
  · rw [hgreets.start, completeStart, hcap]
    exact (reader_send _ _).trans_ne hreader
  · rw [forward_iff_steady, hsteady]
    exact fun hlive => hlive hstopped

theorem idle_performAll {s : Session} (hs : s.Idle) (calls : List Call) :
    (s.performAll calls).Idle := by
  obtain ⟨moves, hrun⟩ := exists_run_performAll hs calls
  rw [← hrun]
  exact hs.run moves

/-- Along a run the phases go forward exactly if no start goes on in a session that has stopped, and
then a session is ready only while its reader runs. Calls make such a run unless a start among them
is overtaken; a start that is leaves the session ready without a reader. -/
theorem phases_forward_unless_overtaken {s : Session} (hs : s.IsNew) :
    (∀ moves, s.Forward moves ↔ s.Steady moves) ∧
    (∀ moves, s.Steady moves → (s.run moves).phase = .ready → (s.run moves).reader = .running) ∧
    (∀ calls, (∀ before after, calls = before ++ .start :: after →
        ¬(s.performAll before).Overtaken) →
      ∃ moves, s.run moves = s.performAll calls ∧ s.Steady moves) ∧
    ∀ calls, (s.performAll calls).Overtaken →
      (s.performAll calls).start.1.phase = .ready ∧
      (s.performAll calls).start.1.reader ≠ .running ∧
      ∃ moves, (s.performAll calls).run moves = (s.performAll calls).start.1 ∧
        ¬(s.performAll calls).Forward moves :=
  ⟨forward_iff_steady s, fun _ hsteady => (hs.stage.run hs.balanced hsteady).reader_of_ready,
    fun _ => exists_steady_performAll hs.idle,
    fun calls hover => hover.start (idle_performAll hs.idle calls)⟩

/-- A start that is answered in time. -/
def timelyAnswer : List Move :=
  [.begin, .spawn, .wake, .register "initialize" 10,
    .message (.record [("id", .integer 1), ("result", .record [])]), .complete 1]

theorem phases_forward_timelyAnswer :
    plainSession.IsNew ∧ plainSession.Steady timelyAnswer ∧
    (plainSession.run timelyAnswer).phase = .ready ∧
    (plainSession.run timelyAnswer).reader = .running := by
  obtain ⟨hforward, hreader, -, -⟩ := phases_forward_unless_overtaken isNew_plainSession
  have hsteady := (hforward timelyAnswer).mp (by unfold Forward; decide)
  have hready : (plainSession.run timelyAnswer).phase = .ready := by decide
  exact ⟨isNew_plainSession, hsteady, hready, hreader timelyAnswer hsteady hready⟩

/-- A session whose server closes its output right behind its first answer. -/
def closingSession : Session where
  command := [.text "srv"]
  root := ⟨"/", ["w", "p"]⟩
  script := { replies := .ofPairs [("initialize",
    [[.result (.record [("capabilities", .record [])]), .closeOutput]])] }

theorem overtaken_closingSession : closingSession.Overtaken := by
  let params := closingSession.launched.initializeParams "file:///w/p"
  let sent := (closingSession.launched.request "initialize" params closingSession.timeout).1
  let result : Value := .record [("capabilities", .record [])]
  let told := ({ (sent.note .pause).wake with inbox := [] } : Session).take
    (Peer.reply (.integer 1) "result" result)
  have huri : closingSession.root.uri? = some "file:///w/p" := by decide +kernel
  have hrequest : closingSession.launched.request "initialize" params closingSession.timeout =
      (sent, .ok 1) := rfl
  -- the reader finds the answer and the end of the output before the start runs again
  have hpause : sent.pause = told.endReader .outputClosed := by
    have hanswer : sent.pause = told.pump :=
      pump_of_message (by decide +kernel) (by decide +kernel)
    rw [hanswer]
    exact pump_of_finished (by decide +kernel) (by decide +kernel)
  have hask : closingSession.launched.ask "initialize" params closingSession.timeout =
      (told.endReader .outputClosed, .answer result) := by
    rw [ask, hrequest]
    dsimp only
    rw [await, hpause]
    rfl
  exact ⟨_, result, ⟨rfl, rfl, _, huri, hask⟩, rfl, rfl⟩

theorem start_closingSession_leaves_stopped :
    closingSession.IsNew ∧ closingSession.start.1.phase = .ready ∧
    closingSession.start.1.reader ≠ .running ∧
    ∃ moves, closingSession.run moves = closingSession.start.1 ∧ ¬closingSession.Forward moves :=
  have hnew : closingSession.IsNew := ⟨rfl, rfl, rfl⟩
  ⟨hnew, overtaken_closingSession.start hnew.idle⟩

end Session

end CodeAtlas.Server
