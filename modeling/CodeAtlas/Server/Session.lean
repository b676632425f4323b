import CodeAtlas.Path
import CodeAtlas.Server.Channel
import CodeAtlas.Server.Peer

/-!
# Sessions

A session starts a server, asks it about documents and stops it. Writing never
waits: a message is received and reacted to at once, and what the server writes
lies in the inbox until the reader runs. The reader runs whenever the session
waits, and then as long as there are whole messages. Time stands still while
anything can run; when everything waits it goes on to the next deadline.
-/

namespace CodeAtlas.Server

/-- Nanoseconds. -/
abbrev Duration := Int

def second : Duration := 1000000000

/-- How long a server may take to shut down. -/
def shutdownGrace : Duration := 2 * second

/-- What can be seen of a session from the server's side, and where the session waited. -/
inductive Event
  | spawn (command : List Value) (directory : String)
  | message (v : Value)
  | terminate
  | kill
  | pause
  deriving DecidableEq, Repr

inductive ReaderState
  | absent
  /-- The reader is there and has not run yet. -/
  | scheduled
  | running
  | done
  deriving DecidableEq, Repr

/-- Why a call did not succeed: an error of the link, or an answer that the session cannot cope
with. -/
inductive Failure
  | link (e : LinkError)
  /-- The server's capabilities are not in a record. -/
  | noRecord
  /-- A position that no number can hold. -/
  | unbounded
  /-- A number with more digits than can be written. -/
  | longNumber
  /-- A path that no file can have. -/
  | impossiblePath
  /-- A command line that no system could start. -/
  | line (f : LineFault)
  deriving DecidableEq, Repr

structure Session where
  command : List Value
  root : Path
  languageId : String := "plaintext"
  timeout : Duration := 10 * second
  script : Script := {}
  processId : Int := 0
  channel : Channel := {}
  capabilities : Value := .record []
  peer : Option Peer := none
  /-- Whether the session still holds the process. -/
  attached : Bool := false
  reader : ReaderState := .absent
  inbox : List UInt8 := []
  clock : Duration := 0
  log : List Event := []

namespace Session

def phase (s : Session) : Phase := s.channel.phase

def isReady (s : Session) : Bool := s.phase = .ready

def setPhase (s : Session) (p : Phase) : Session :=
  { s with channel := { s.channel with phase := p } }

def note (s : Session) (e : Event) : Session := { s with log := s.log ++ [e] }

/-- The command in messages. -/
def commandName (s : Session) : String := (s.command.head?.map Value.display).getD ""

/-- Whether the server can write no more. -/
def outputClosed (s : Session) : Bool := (s.peer.map fun p => !p.outputOpen).getD true

/-- Whether the process runs. -/
def alive (s : Session) : Bool := (s.peer.map Peer.alive).getD false

/-- What a message says its method is. -/
def methodOf (message : Value) : String :=
  match message.field? "method" with
  | some (.text m) => m
  | _ => ""

/-- Hands a message to a server, which reacts at once. -/
def deliver (s : Session) (p : Peer) (message : Value) : Session :=
  let (p, bytes) := p.receive (methodOf message) ((message.field? "id").getD .null)
  { s with
    peer := some p
    inbox := s.inbox ++ bytes
    log := s.log ++ [.message message] }

/-- Whether the last write was one that breaks. -/
def writeBreaks (s : Session) : Bool := (s.peer.map fun p => s.script.breaks p.writes).getD false

/-- Sends a message to the process that the session holds. A write can break after the message has
arrived. -/
def send (s : Session) (message : Value) : Session × Option LinkError :=
  match if s.attached then s.peer else none with
  | some p =>
    if p.alive then
      let s := s.deliver p message
      (s, if s.writeBreaks then some (.writeFailed "broken pipe") else none)
    else (s, some .notRunning)
  | none => (s, some .notRunning)

/-- A message with a method; null parameters are left out. -/
def call (method : String) (id : Option Nat) (params : Value) : Value :=
  let id := match id with
    | some n => [("id", Value.integer n)]
    | none => []
  let params := if params = .null then [] else [("params", params)]
  .record ([("jsonrpc", .text "2.0")] ++ id ++ [("method", .text method)] ++ params)

def notify (s : Session) (method : String) (params : Value) : Session × Option LinkError :=
  s.send (call method none params)

/-- Ends the reader, and every request with it. -/
def endReader (s : Session) (e : LinkError) : Session :=
  { s with
    reader := .done
    channel := { s.channel.abort e with phase := .stopped } }

/-- Takes in one message. An error ends the reader. -/
def handle (s : Session) (message : Value) : Session × Option LinkError :=
  match Incoming.ofMessage message with
  | .ask id => s.send (.record [("jsonrpc", .text "2.0"), ("id", id), ("result", .null)])
  | .notice => (s, none)
  | .reply none _ => (s, none)
  | .reply (some id) outcome =>
    if s.channel.isWaiting id then
      match outcome with
      | some outcome => ({ s with channel := s.channel.finish id outcome }, none)
      | none => (s, some .outputClosed)
    else (s, none)
  | .nonsense => (s, some .outputClosed)

/-- The error that ends the requests when a frame cannot be read. -/
def linkError : FrameError → LinkError
  | .headerEnds => .headerEnds
  | .bodyEnds => .bodyEnds
  | .badLength line => .badLength line
  | .badBody fault => .badBody fault
  | .negativeLength | .longLine | .longNumber | .deepNesting => .outputClosed

/-- How many reactions the server has left. -/
def remaining (s : Session) : Nat := (s.peer.map Peer.remaining).getD 0

theorem remaining_deliver {s : Session} {p : Peer} {message : Value} (hp : s.peer = some p)
    (h : Peer.usualActions (methodOf message) = []) :
    (s.deliver p message).remaining < s.remaining ∨
      (s.deliver p message).remaining = s.remaining ∧ (s.deliver p message).inbox = s.inbox := by
  rcases Peer.remaining_receive p ((message.field? "id").getD .null) h with h | h
  · left
    simpa [deliver, remaining, hp] using h
  · right
    simpa [deliver, remaining, hp] using h

theorem remaining_send {s : Session} {message : Value}
    (h : Peer.usualActions (methodOf message) = []) :
    (s.send message).1.remaining < s.remaining ∨
      (s.send message).1.remaining = s.remaining ∧ (s.send message).1.inbox = s.inbox := by
  unfold send
  split
  next p heq =>
    split
    · refine remaining_deliver ?_ h
      split at heq
      · exact heq
      · simp at heq
    · exact .inr ⟨rfl, rfl⟩
  next => exact .inr ⟨rfl, rfl⟩

/-- A message takes a reaction from the server or adds nothing to the inbox. -/
theorem remaining_handle (s : Session) (message : Value) :
    (s.handle message).1.remaining < s.remaining ∨
      (s.handle message).1.remaining = s.remaining ∧ (s.handle message).1.inbox = s.inbox := by
  unfold handle
  split
  · exact remaining_send rfl
  · exact .inr ⟨rfl, rfl⟩
  · exact .inr ⟨rfl, rfl⟩
  · split
    · split <;> exact .inr ⟨rfl, rfl⟩
    · exact .inr ⟨rfl, rfl⟩
  · exact .inr ⟨rfl, rfl⟩

/-- Runs the reader until it has to wait or ends. -/
def pump (s : Session) : Session :=
  if s.reader = .running then
    match _h : read s.outputClosed s.inbox with
    | .waiting => s
    | .finished => s.endReader .outputClosed
    | .failed e => s.endReader (linkError e)
    | .message v rest =>
      let taken := { s with inbox := rest }
      let next := (taken.handle v).1
      match (taken.handle v).2 with
      | some e => next.endReader e
      | none => pump next
  else s
termination_by (s.remaining, s.inbox.length)
decreasing_by
  have hlt := length_read_message_lt _h
  rcases remaining_handle { s with inbox := rest } v with h | ⟨h, hi⟩
  · exact Prod.Lex.left _ _ h
  · have hr : ({ s with inbox := rest } : Session).remaining = s.remaining := rfl
    rw [h, hr, hi]
    exact Prod.Lex.right _ hlt

/-- A reader that runs for the first time finds the process, or ends. -/
def wake (s : Session) : Session :=
  if s.reader = .scheduled then
    { s with reader := if s.attached then .running else .done }
  else s

/-- Everything that can run without waiting runs. -/
def settle (s : Session) : Session := s.wake.pump

/-- The session waits for a moment: the reader runs. -/
def pause (s : Session) : Session := (s.note .pause).settle

/-- Time goes on to a moment, and deadlines pass. -/
def advance (s : Session) (now : Duration) : Session :=
  { s with clock := now, channel := s.channel.expire now }

/-- Sends a request: its number, or why it could not be sent. One with no time at all ends at
once. -/
def request (s : Session) (method : String) (params : Value) (timeout : Duration) :
    Session × Except LinkError Nat :=
  if s.phase = .starting ∨ s.phase = .ready then
    let s := { s with channel := s.channel.issue method (s.clock + timeout) }
    let id := s.channel.lastId
    match s.send (call method (some id) params) with
    | (s, some e) => ({ s with channel := s.channel.finish id (.failure e) }, .error e)
    | (s, none) =>
      if timeout ≤ 0 then
        ({ s with channel := s.channel.finish id (.failure (.timedOut method id)) }, .ok id)
      else (s, .ok id)
  else (s, .error (.notReady s.phase))

/-- Waits until a request has ended: by what the reader finds, or else by its deadline. -/
def await (s : Session) (id : Nat) : Session × Outcome :=
  let s := s.pause
  match s.channel.outcome? id with
  | some o => (s, o)
  | none =>
    let s := s.advance ((s.channel.deadline? id).getD s.clock)
    (s, (s.channel.outcome? id).getD (.failure .outputClosed))

/-- Sends a request and waits for its end. -/
def ask (s : Session) (method : String) (params : Value) (timeout : Duration) :
    Session × Outcome :=
  match s.request method params timeout with
  | (s, .error e) => (s, .failure e)
  | (s, .ok id) => s.await id

/-- The time that a request has: its own unless that is zero, or else the session's. -/
def timeoutOr (s : Session) (timeout : Option Duration) : Duration :=
  match timeout with
  | some t => if t = 0 then s.timeout else t
  | none => s.timeout

/-- Asks a server that is ready to shut down and, if it agrees, to exit. -/
def askToExit (s : Session) : Session :=
  if s.phase = .ready then
    match s.ask "shutdown" .null shutdownGrace with
    | (s, .answer _) => (s.notify "exit" .null).1
    | (s, .failure _) => s
  else s

def killPeer (s : Session) : Session := { s with peer := s.peer.map Peer.kill }

/-- Ends a process that still runs, by force if it takes too long. -/
def endProcess (s : Session) : Session :=
  if s.alive then
    let s := s.note .terminate
    if s.script.ignoresTerminate then
      let s := s.pause
      ((s.advance (s.clock + shutdownGrace)).note .kill).killPeer.pause
    else s.killPeer.pause
  else s

/-- Cancels the reader. One that was running ends its requests as if the output had closed. -/
def cancelReader (s : Session) : Session :=
  match s.reader with
  | .running => (s.note .pause).endReader .outputClosed
  | .scheduled => s.note .pause
  | _ => s

/-- Stops the server and ends what is left. -/
def stop (s : Session) : Session :=
  if s.phase = .stopped ∧ s.attached = false then s
  else
    let s := s.askToExit.setPhase .stopped
    let held := s.attached
    let s := { s with attached := false }
    let s := (if held then s.endProcess else s).cancelReader
    { s with reader := .absent, channel := s.channel.abort .channelStopped }

/-- What the session tells about itself. -/
def initializeParams (s : Session) (uri : String) : Value :=
  .record [("processId", .integer s.processId), ("rootUri", .text uri),
    ("rootPath", .text s.root.text),
    ("capabilities", .record [("textDocument", .record [("documentSymbol",
      .record [("hierarchicalDocumentSymbolSupport", .boolean true)])])]),
    ("workspaceFolders", .list [.record [("uri", .text uri), ("name", .text s.root.name)]])]

/-- The process of the session's command, with a reader for its output. -/
def spawn (s : Session) : Session :=
  { s with peer := some (.ofScript s.script), attached := true, reader := .scheduled }

/-- The capabilities in the answer to the first request. -/
def capabilitiesOf? (result : Value) : Option Value :=
  match if result.isGiven then result else .record [] with
  | .record fields => some ((fields.lookup "capabilities").getD (.record []))
  | _ => none

/-- Goes on after the first request has been answered. -/
def completeStart (s : Session) (result : Value) : Session × Option Failure :=
  match capabilitiesOf? result with
  | none => (s, some .noRecord)
  | some capabilities =>
    let s := { s with capabilities }.setPhase .ready
    let (s, e) := s.notify "initialized" (.record [])
    (s, e.map .link)

/-- Introduces the session to a server that has been started. A root that is no possible path leaves
it there. -/
def introduce (s : Session) : Session × Option Failure :=
  match s.root.uri? with
  | none => (s, some .impossiblePath)
  | some uri =>
    match s.ask "initialize" (s.initializeParams uri) s.timeout with
    | (s, .answer result) => s.completeStart result
    | (s, .failure e) => (s.stop, some (.link (.handshake s.commandName e)))

/-- Why the system starts no process for the session. -/
def spawnFault? (s : Session) : Option SpawnFault :=
  s.script.spawnFault? s.command s.root.text

/-- The session has asked the system for a process. -/
def launching (s : Session) : Session :=
  (s.setPhase .starting).note (.spawn s.command s.root.text)

/-- Starts the server and introduces the session to it. A command line that no system could start
leaves the session where it is. -/
def start (s : Session) : Session × Option Failure :=
  if s.phase = .notStarted then
    match s.spawnFault? with
    | none => s.launching.spawn.introduce
    | some (.line f) => (s.setPhase .starting, some (.line f))
    | some (.system reason) =>
      (s.launching.setPhase .stopped, some (.link (.spawn s.commandName reason)))
  else (s, some (.link (.cannotStart s.phase)))

/-- Guards what only a ready session may do. -/
def whenReady {α : Type} (s : Session) (act : Session → Session × Except Failure α) :
    Session × Except Failure α :=
  if s.isReady then act s else (s, .error (.link (.notReady s.phase)))

/-- The result of a message that is only sent. -/
def sent (r : Session × Option LinkError) : Session × Except Failure Unit :=
  match r with
  | (s, none) => (s, .ok ())
  | (s, some e) => (s, .error (.link e))

def openDocument (s : Session) (uri text languageId : String) : Session × Except Failure Unit :=
  s.whenReady fun s => sent <| s.notify "textDocument/didOpen" (.record [("textDocument",
    .record [("uri", .text uri), ("languageId", .text languageId), ("version", .integer 1),
      ("text", .text text)])])

def closeDocument (s : Session) (uri : String) : Session × Except Failure Unit :=
  s.whenReady fun s => sent <| s.notify "textDocument/didClose"
    (.record [("textDocument", .record [("uri", .text uri)])])

/-- Asks for the outline of a document, without waiting. -/
def requestOutline (s : Session) (uri : String) : Session × Except Failure Nat :=
  s.whenReady fun s =>
    match s.request "textDocument/documentSymbol"
        (.record [("textDocument", .record [("uri", .text uri)])]) s.timeout with
    | (s, .ok id) => (s, .ok id)
    | (s, .error e) => (s, .error (.link e))

/-- The outline that an outcome brings. -/
def outlineOf : Outcome → Except Failure (List Outline)
  | .failure e => .error (.link e)
  | .answer v =>
    match Outline.ofValue .null v with
    | .ok forest => .ok forest
    | .error (.notAList kind) => .error (.link (.notAList kind))
    | .error (.malformed name fault) => .error (.link (.malformed name fault))
    | .error .unbounded => .error .unbounded
    | .error .longNumber => .error .longNumber

/-- The outline of a document. -/
def outline (s : Session) (uri : String) : Session × Except Failure (List Outline) :=
  match s.requestOutline uri with
  | (s, .error e) => (s, .error e)
  | (s, .ok id) =>
    let (s, o) := s.await id
    (s, outlineOf o)

/-- Opens the document of a file, asks for its outline and closes it, even if there was no answer.
That it could not be closed does not matter. -/
def fetchOutline (s : Session) (path : Path) (text languageId : String) :
    Session × Except Failure (List Outline) :=
  match path.uri? with
  | none => (s, .error .impossiblePath)
  | some uri =>
    match s.openDocument uri text languageId with
    | (s, .error e) => (s, .error e)
    | (s, .ok _) =>
      let (s, r) := s.outline uri
      ((s.closeDocument uri).1, r)

/-- The outlines of several documents. All requests are sent before the first is waited for. -/
def outlines (s : Session) (uris : List String) :
    Session × List (Except Failure (List Outline)) :=
  let (s, sent) := uris.foldl (fun (s, rs) uri =>
    let (s, r) := s.requestOutline uri
    (s, rs ++ [r])) (s, [])
  collect s sent
where
  /-- Waits for requests one after another. -/
  collect (s : Session) : List (Except Failure Nat) →
      Session × List (Except Failure (List Outline))
  | [] => (s, [])
  | .error e :: rest =>
    let (s, rs) := collect s rest
    (s, .error e :: rs)
  | .ok id :: rest =>
    let (s, o) := s.await id
    let (s, rs) := collect s rest
    (s, outlineOf o :: rs)

/-- The server acts of its own accord. -/
def prompt (s : Session) (actions : List Action) : Session :=
  match s.peer with
  | none => s
  | some p =>
    let (p, bytes) := p.actAll .null actions
    { s with peer := some p, inbox := s.inbox ++ bytes }

end Session

end CodeAtlas.Server
