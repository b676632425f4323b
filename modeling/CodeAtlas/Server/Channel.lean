import CodeAtlas.Server.Frame
import CodeAtlas.Server.Outline

/-!
# Requests in flight

A channel numbers the requests it sends and keeps those that wait for an answer.
A request ends in one of four ways: by the first reply with its number that
comes while it waits, by its deadline, with the stream, or because it could not
be sent. A reply whose number does not wait changes nothing.
-/

namespace CodeAtlas.Server

inductive Phase
  | notStarted
  | starting
  | ready
  | stopped
  deriving DecidableEq, Repr

def Phase.text : Phase → String
  | notStarted => "not_started"
  | starting => "starting"
  | ready => "ready"
  | stopped => "stopped"

/-- Why something asked of a server did not succeed. -/
inductive LinkError
  | cannotStart (phase : Phase)
  | spawn (command reason : String)
  | handshake (command : String) (cause : LinkError)
  | notReady (phase : Phase)
  | timedOut (method : String) (id : Nat)
  | outputClosed
  | channelStopped
  | notRunning
  | writeFailed (reason : String)
  | headerEnds
  | bodyEnds
  | badLength (line : List Char)
  | badBody (fault : BodyFault)
  | notAList (kind : String)
  | malformed (name : Value) (fault : EntryFault)
  | response (code message : Value)
  deriving DecidableEq, Repr

namespace LinkError

/-- The wording without what a lower layer adds. -/
def headline : LinkError → String
  | cannotStart phase => s!"cannot start a channel in state {phase.text}"
  | spawn command _ => s!"could not spawn {command}: "
  | handshake command _ => s!"{command} failed to initialize: "
  | notReady phase => s!"channel is {phase.text}"
  | timedOut method id => s!"{method} (id={id}) timed out"
  | outputClosed => "server closed its output"
  | channelStopped => "channel stopped"
  | notRunning => "server process is not running"
  | writeFailed _ => "write failed: "
  | headerEnds => "stream ended inside a header block"
  | bodyEnds => "stream ended inside a message body"
  | badLength line => s!"invalid Content-Length header: {String.ofList (Text.quoted line)}"
  | badBody _ => "undecodable message body: "
  | notAList kind => s!"expected a list of symbols, got {kind}"
  | malformed name _ => s!"malformed symbol {name.literal}: "
  | response code message => s!"[{code.display}] {message.display}"

/-- The whole wording. -/
def message : LinkError → String
  | handshake command cause => (handshake command cause).headline ++ cause.message
  | spawn command reason => (spawn command reason).headline ++ reason
  | writeFailed reason => (writeFailed reason).headline ++ reason
  | badBody fault => (badBody fault).headline ++ fault.message
  | malformed name fault => (malformed name fault).headline ++ fault.message
  | e => e.headline

end LinkError

/-- How a request ended. -/
inductive Outcome
  | answer (v : Value)
  | failure (e : LinkError)
  deriving DecidableEq, Repr

/-- A request that waits. Times are in nanoseconds. -/
structure Waiting where
  id : Nat
  method : String
  deadline : Int
  deriving DecidableEq, Repr

structure Channel where
  phase : Phase := .notStarted
  /-- The number of the last request; the first has number one. -/
  lastId : Nat := 0
  waiting : List Waiting := []
  /-- How the requests that no longer wait ended, oldest first. -/
  ended : List (Nat × Outcome) := []
  deriving DecidableEq, Repr

namespace Channel

/-- Numbers a new request. -/
def issue (c : Channel) (method : String) (deadline : Int) : Channel :=
  { c with
    lastId := c.lastId + 1
    waiting := c.waiting ++ [⟨c.lastId + 1, method, deadline⟩] }

def isWaiting (c : Channel) (id : Nat) : Bool := c.waiting.any fun w => w.id == id

/-- Ends a request, if it waits. -/
def finish (c : Channel) (id : Nat) (outcome : Outcome) : Channel :=
  if c.isWaiting id then
    { c with
      waiting := c.waiting.filter fun w => w.id != id
      ended := c.ended ++ [(id, outcome)] }
  else c

/-- Ends every request whose deadline has come. -/
def expire (c : Channel) (now : Int) : Channel :=
  { c with
    waiting := c.waiting.filter fun w => now < w.deadline
    ended := c.ended ++ (c.waiting.filter fun w => w.deadline ≤ now).map fun w =>
      (w.id, .failure (.timedOut w.method w.id)) }

/-- Ends every request. -/
def abort (c : Channel) (e : LinkError) : Channel :=
  { c with
    waiting := []
    ended := c.ended ++ c.waiting.map fun w => (w.id, .failure e) }

def outcome? (c : Channel) (id : Nat) : Option Outcome := c.ended.lookup id

def deadline? (c : Channel) (id : Nat) : Option Int :=
  (c.waiting.find? fun w => w.id == id).map Waiting.deadline

end Channel

/-- What a message from the server is. -/
inductive Incoming
  /-- A request of the server, which wants an answer. -/
  | ask (id : Value)
  | notice
  /-- A reply; without a number no request can match it, and one without an outcome has an error of
  the wrong shape. -/
  | reply (id : Option Nat) (outcome : Option Outcome)
  /-- Nothing that can be made sense of. -/
  | nonsense
  deriving DecidableEq, Repr

namespace Incoming

/-- The request number that a value stands for. Truth values count as numbers. -/
def requestNumber? : Value → Option Nat
  | .integer n => if 0 ≤ n then some n.toNat else none
  | .boolean b => some (if b then 1 else 0)
  | .real x => x.integer?.bind fun n => if 0 ≤ n then some n.toNat else none
  | _ => none

/-- The outcome that a reply brings, unless its error is no record. -/
def outcomeOf? (fields : List (String × Value)) : Option Outcome :=
  match fields.lookup "error" with
  | none | some .null => some (.answer ((fields.lookup "result").getD .null))
  | some (.record e) =>
    some (.failure (.response ((e.lookup "code").getD (.integer 0))
      ((e.lookup "message").getD (.text ""))))
  | some _ => none

def ofMessage : Value → Incoming
  | .record fields =>
    match fields.lookup "method", fields.lookup "id" with
    | some _, some id => .ask id
    | some _, none => .notice
    | none, some (.list _) | none, some (.record _) => .nonsense
    | none, id => .reply (id.bind requestNumber?) (outcomeOf? fields)
  | _ => .nonsense

end Incoming

end CodeAtlas.Server
