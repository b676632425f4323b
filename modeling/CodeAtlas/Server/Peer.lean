import CodeAtlas.Server.Frame
import CodeAtlas.Table

/-!
# Servers

A server is described by what the system makes of its command line and by what
it does on each message it receives. For a method with a list of entries, each
message takes the next entry, and when they are used up nothing happens; without
a list, the three messages of a session's beginning and end have usual reactions.
-/

namespace CodeAtlas.Server

inductive Action
  | result (v : Value)
  | error (v : Value)
  | send (v : Value)
  | bytes (bs : List UInt8)
  /-- Keeps a reply back. -/
  | hold (v : Value)
  /-- Sends the replies kept back. -/
  | release
  | closeOutput
  | exit
  deriving DecidableEq, Repr

/-- What is wrong with a command line that no system could start. -/
inductive LineFault
  /-- A part is no text. -/
  | notText
  /-- A part, or the directory, holds the character zero. -/
  | nullCharacter
  deriving DecidableEq, Repr

namespace LineFault

def ofText? (s : String) : Option LineFault :=
  if s.toList.contains (Char.ofNat 0) then some nullCharacter else none

def ofPart? : Value → Option LineFault
  | .text s => ofText? s
  | _ => some notText

/-- The first fault of a command line for a directory. -/
def ofLine? (command : List Value) (directory : String) : Option LineFault :=
  (command.findSome? ofPart?).or (ofText? directory)

end LineFault

/-- Why there is no process for a command line. -/
inductive SpawnFault
  | line (f : LineFault)
  /-- The system does not start it, for a reason of its own. -/
  | system (reason : String)
  deriving DecidableEq, Repr

/-- The program of a command line is not there. -/
def SpawnFault.missing (name : String) : SpawnFault :=
  .system ("[Errno 2] No such file or directory: " ++ String.ofList (Text.quoted name.toList))

/-- How a server behaves. -/
structure Script where
  /-- Why the system starts no process for a command line in a directory. -/
  spawnFault? : List Value → String → Option SpawnFault :=
    fun command directory => (LineFault.ofLine? command directory).map .line
  replies : Table (List (List Action)) := ∅
  /-- Which writes break, counted from one. -/
  breaks : Nat → Bool := fun _ => false
  ignoresTerminate : Bool := false

/-- What the system finds for a command: how its program behaves, or that there is none. -/
abbrev Programs := Value → Except LineFault (Option Script)

/-- Programs by their names. A command that is no text cannot be looked for. -/
def Programs.ofTable (t : Table Script) : Programs
  | .text name => .ok (t.get? name)
  | _ => .error .notText

/-- A running server. -/
structure Peer where
  /-- The entries that are left. -/
  replies : Table (List (List Action))
  held : List Value := []
  /-- How many messages it has received. -/
  writes : Nat := 0
  alive : Bool := true
  outputOpen : Bool := true

namespace Peer

def ofScript (s : Script) : Peer := { replies := s.replies }

/-- A reply to the message with an id. -/
def reply (id : Value) (member : String) (v : Value) : Value :=
  .record [("jsonrpc", .text "2.0"), ("id", id), (member, v)]

/-- What reaches the other side: nothing once the output is closed. -/
def emits (p : Peer) (bs : List UInt8) : List UInt8 := if p.outputOpen then bs else []

/-- Ends the process, and its output with it. -/
def kill (p : Peer) : Peer := { p with alive := false, outputOpen := false }

/-- One action, in answer to the message with an id: the server after it and what it writes. -/
def act (id : Value) (p : Peer) : Action → Peer × List UInt8
  | .result v => (p, p.emits (frame (reply id "result" v)))
  | .error v => (p, p.emits (frame (reply id "error" v)))
  | .send v => (p, p.emits (frame v))
  | .bytes bs => (p, p.emits bs)
  | .hold v => ({ p with held := p.held ++ [reply id "result" v] }, [])
  | .release => ({ p with held := [] }, p.emits (p.held.flatMap frame))
  | .closeOutput => ({ p with outputOpen := false }, [])
  | .exit => (p.kill, [])

def actAll (id : Value) (p : Peer) : List Action → Peer × List UInt8
  | [] => (p, [])
  | a :: rest =>
    let (p, bs) := p.act id a
    let (p, more) := actAll id p rest
    (p, bs ++ more)

def usualActions : String → List Action
  | "initialize" => [.result (.record [("capabilities", .record [])])]
  | "shutdown" => [.result .null]
  | "exit" => [.exit]
  | _ => []

/-- The next entry for a method. -/
def nextEntry (p : Peer) (method : String) : Peer × List Action :=
  match p.replies.get? method with
  | none => (p, usualActions method)
  | some [] => (p, [])
  | some (entry :: rest) => ({ p with replies := p.replies.insert method rest }, entry)

/-- Receives a message and reacts to it. -/
def receive (p : Peer) (method : String) (id : Value) : Peer × List UInt8 :=
  let (p, actions) := p.nextEntry method
  { p with writes := p.writes + 1 }.actAll id actions

/-- The number of entries in a table of entries. -/
def entryCount (t : Table (List (List Action))) : Nat :=
  (t.entries.flatMap Prod.snd).length

/-- How many entries are left. -/
def remaining (p : Peer) : Nat := entryCount p.replies

theorem replies_act (id : Value) (p : Peer) (a : Action) : (p.act id a).1.replies = p.replies := by
  cases a <;> rfl

theorem replies_actAll (id : Value) (p : Peer) (actions : List Action) :
    (p.actAll id actions).1.replies = p.replies := by
  induction actions generalizing p with
  | nil => rfl
  | cons a rest ih =>
    simp only [actAll]
    rw [ih, replies_act]

theorem length_flatMap_putPair_lt {method : String} {entry : List Action}
    {rest : List (List Action)} {l : List (String × List (List Action))}
    (h : l.lookup method = some (entry :: rest)) :
    ((Table.putPair method rest l).flatMap Prod.snd).length < (l.flatMap Prod.snd).length := by
  induction l with
  | nil => simp at h
  | cons p l ih =>
    obtain ⟨k, v⟩ := p
    rw [List.lookup_cons] at h
    by_cases hk : k = method
    · subst hk
      simp only [BEq.rfl, Option.some.injEq] at h
      simp [Table.putPair, h]
    · have hb : (method == k) = false := by simpa using fun e => hk e.symm
      rw [hb] at h
      simp only [Table.putPair, hk, if_false, List.flatMap_cons, List.length_append]
      exact Nat.add_lt_add_left (ih h) _

/-- A message without a usual reaction takes an entry or leaves everything as it is. -/
theorem remaining_receive (p : Peer) (id : Value) {method : String}
    (h : usualActions method = []) :
    (p.receive method id).1.remaining < p.remaining ∨
      (p.receive method id).1.remaining = p.remaining ∧ (p.receive method id).2 = [] := by
  simp only [receive, remaining]
  rw [replies_actAll]
  unfold nextEntry
  split
  · right
    rw [h]
    exact ⟨rfl, rfl⟩
  · right
    exact ⟨rfl, rfl⟩
  · left
    exact length_flatMap_putPair_lt (by assumption)

end Peer

end CodeAtlas.Server
