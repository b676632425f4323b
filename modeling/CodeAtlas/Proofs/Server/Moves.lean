import CodeAtlas.Server.Session

/-!
# The moves of a session

A start, a stop, any number of requests and the reader share one session, and
each of them can be interrupted wherever it waits. A move is what one of them
does between two such places. A run is any list of moves: no order is assumed,
the server may write anything at any time, and a move that cannot happen where
it stands changes nothing. Every call on a session is such a run.
-/

namespace CodeAtlas.Server

/-- What happens between two places where something waits. -/
inductive Move
  /-- The server acts, bytes arrive or are taken, time is told, something is logged. -/
  | outside (peer : Option Peer) (inbox : List UInt8) (clock : Duration) (log : List Event)
  /-- A start finds that it may go on. -/
  | begin
  | spawnFails
  /-- The process is there, and a reader for its output. -/
  | spawn
  /-- The reader runs for the first time. -/
  | wake
  /-- A request gets its number and waits. -/
  | register (method : String) (deadline : Int)
  /-- A request cannot be written: there is no process, or the write breaks. -/
  | unsent (id : Nat) (reason : Option String)
  /-- The deadline of one request passes. -/
  | timeout (method : String) (id : Nat)
  /-- Time goes on, and every deadline up to then passes. -/
  | time (now : Duration)
  /-- The reader takes in a message. -/
  | message (v : Value)
  /-- The reader finds the end of the output, or no frame. -/
  | streamEnds (error : Option FrameError)
  /-- A start goes on with the answer to its first request. -/
  | complete (id : Nat)
  /-- A stop closes the channel and lets go of the process. -/
  | close
  /-- A stop has seen the process and the reader end. -/
  | drop

def Move.isComplete : Move → Bool
  | .complete _ => true
  | _ => false

namespace Session

/-- The capabilities in the answer to a request, if it has one with capabilities. -/
def capabilitiesFrom? (s : Session) (id : Nat) : Option Value :=
  match s.channel.outcome? id with
  | some (.answer result) => capabilitiesOf? result
  | _ => none

/-- The reader takes in a message, and ends if that goes wrong. -/
def take (s : Session) (v : Value) : Session :=
  match s.handle v with
  | (s, some e) => s.endReader e
  | (s, none) => s

theorem take_of_error {s : Session} {v : Value} {e : LinkError} (h : (s.handle v).2 = some e) :
    s.take v = (s.handle v).1.endReader e := by
  unfold take
  split
  next heq =>
    rw [heq] at h ⊢
    rw [Option.some.injEq] at h
    rw [h]
  next heq => simp [heq] at h

theorem take_of_ok {s : Session} {v : Value} (h : (s.handle v).2 = none) :
    s.take v = (s.handle v).1 := by
  unfold take
  split
  next heq => simp [heq] at h
  next heq => rw [heq]

def unsentError : Option String → LinkError
  | none => .notRunning
  | some reason => .writeFailed reason

def move (s : Session) : Move → Session
  | .outside peer inbox clock log => { s with peer, inbox, clock, log }
  | .begin => if s.phase = .notStarted then s.setPhase .starting else s
  | .spawnFails => s.setPhase .stopped
  | .spawn =>
    if s.phase ≠ .notStarted ∧ s.reader = .absent then
      { s with attached := true, reader := .scheduled }
    else s
  | .wake => s.wake
  | .register method deadline => { s with channel := s.channel.issue method deadline }
  | .unsent id reason => { s with channel := s.channel.finish id (.failure (unsentError reason)) }
  | .timeout method id => { s with channel := s.channel.finish id (.failure (.timedOut method id)) }
  | .time now => s.advance now
  | .message v => if s.reader = .running then s.take v else s
  | .streamEnds error =>
    if s.reader = .running then s.endReader ((error.map linkError).getD .outputClosed) else s
  | .complete id =>
    match s.capabilitiesFrom? id with
    | some capabilities => { s with capabilities }.setPhase .ready
    | none => s
  | .close => { s.setPhase .stopped with attached := false }
  | .drop =>
    if s.attached = false then
      { s with reader := .absent, channel := s.channel.abort .channelStopped }
    else s

def run (s : Session) (moves : List Move) : Session := moves.foldl move s

@[simp] theorem run_nil (s : Session) : s.run [] = s := rfl

@[simp] theorem run_cons (s : Session) (m : Move) (rest : List Move) :
    s.run (m :: rest) = (s.move m).run rest := rfl

@[simp] theorem run_append (s : Session) (before after : List Move) :
    s.run (before ++ after) = (s.run before).run after :=
  List.foldl_append

/-- A session that nothing has been asked of. -/
structure IsNew (s : Session) : Prop where
  channel : s.channel = {}
  reader : s.reader = .absent
  attached : s.attached = false

/-- A session with a server that does the usual. -/
def plainSession : Session where
  command := [.text "srv"]
  root := ⟨"/", ["w"]⟩

theorem isNew_plainSession : plainSession.IsNew := ⟨rfl, rfl, rfl⟩

@[simp] theorem channel_send (s : Session) (message : Value) :
    (s.send message).1.channel = s.channel := by
  unfold send
  split
  · split <;> rfl
  · rfl

@[simp] theorem reader_send (s : Session) (message : Value) :
    (s.send message).1.reader = s.reader := by
  unfold send
  split
  · split <;> rfl
  · rfl

/-- A message that cannot be sent meets no process or a write that breaks. -/
theorem exists_unsentError_of_send {s : Session} {message : Value} {e : LinkError}
    (h : (s.send message).2 = some e) : ∃ reason, e = unsentError reason := by
  unfold send at h
  split at h
  · split at h
    · dsimp only at h
      split at h
      · exact ⟨some "broken pipe", by simpa [unsentError] using h.symm⟩
      · simp at h
    · exact ⟨none, by simpa [unsentError] using h.symm⟩
  · exact ⟨none, by simpa [unsentError] using h.symm⟩

/-- A message ends the reader, or ends the one request it replies to, or leaves the channel as it
is. -/
theorem take_cases (s : Session) (v : Value) :
    (∃ e, (e = .outputClosed ∨ ∃ reason, e = unsentError reason) ∧ (s.take v).reader = .done ∧
      (s.take v).channel = { s.channel.abort e with phase := .stopped }) ∨
    (∃ id o, Incoming.ofMessage v = .reply (some id) (some o) ∧ s.channel.isWaiting id = true ∧
      (s.take v).reader = s.reader ∧ (s.take v).channel = s.channel.finish id o) ∨
    ((s.take v).reader = s.reader ∧ (s.take v).channel = s.channel) := by
  cases hin : Incoming.ofMessage v with
  | ask id =>
    have hhandle : s.handle v = s.send (.record [("jsonrpc", .text "2.0"), ("id", id),
        ("result", .null)]) := by simp only [handle, hin]
    cases he : (s.handle v).2 with
    | none =>
      right; right
      rw [take_of_ok he, hhandle]
      simp
    | some e =>
      left
      refine ⟨e, .inr (exists_unsentError_of_send (hhandle ▸ he)), ?_⟩
      rw [take_of_error he, hhandle]
      simp [endReader]
  | notice =>
    right; right
    simp [take, handle, hin]
  | nonsense =>
    left
    exact ⟨.outputClosed, .inl rfl, by simp [take, handle, hin, endReader]⟩
  | reply id? outcome =>
    cases id? with
    | none =>
      right; right
      simp [take, handle, hin]
    | some id =>
      cases hw : s.channel.isWaiting id with
      | false =>
        right; right
        simp [take, handle, hin, hw]
      | true =>
        cases outcome with
        | none =>
          left
          exact ⟨.outputClosed, .inl rfl, by simp [take, handle, hin, hw, endReader]⟩
        | some o =>
          right; left
          exact ⟨id, o, rfl, hw, by simp [take, handle, hin, hw]⟩

@[simp] theorem phase_finish (c : Channel) (id : Nat) (o : Outcome) :
    (c.finish id o).phase = c.phase := by
  unfold Channel.finish
  split <;> rfl

/-- A move keeps the phase, or starts, or stops, or lets a start go on with an answer. -/
theorem phase_move_cases (s : Session) (m : Move) :
    (s.move m).phase = s.phase ∨ (s.phase = .notStarted ∧ (s.move m).phase = .starting) ∨
    (s.move m).phase = .stopped ∨
    ∃ id, m = .complete id ∧ (s.capabilitiesFrom? id).isSome = true ∧
      (s.move m).phase = .ready := by
  cases m with
  | outside | register | time => exact .inl rfl
  | begin =>
    by_cases h : s.phase = .notStarted
    · exact .inr (.inl ⟨h, by rw [move, if_pos h]; rfl⟩)
    · exact .inl (by rw [move, if_neg h])
  | spawnFails | close => exact .inr (.inr (.inl rfl))
  | spawn =>
    left
    simp only [move]
    split <;> rfl
  | wake =>
    left
    simp only [move, wake]
    split <;> rfl
  | unsent | timeout => exact .inl (phase_finish _ _ _)
  | message v =>
    simp only [move]
    split
    · rcases take_cases s v with ⟨e, -, -, hc⟩ | ⟨id, o, -, -, -, hc⟩ | ⟨-, hc⟩
      · exact .inr (.inr (.inl (by rw [phase, hc])))
      · exact .inl (by rw [phase, hc, phase_finish, phase])
      · exact .inl (by rw [phase, hc, phase])
    · exact .inl rfl
  | streamEnds error =>
    simp only [move]
    split
    · exact .inr (.inr (.inl rfl))
    · exact .inl rfl
  | complete id =>
    simp only [move]
    split
    next capabilities h => exact .inr (.inr (.inr ⟨id, rfl, by simp [h], rfl⟩))
    next => exact .inl rfl
  | drop =>
    left
    simp only [move]
    split <;> rfl

end Session

end CodeAtlas.Server
