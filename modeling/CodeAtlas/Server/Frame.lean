import CodeAtlas.Text.Blank
import CodeAtlas.Text.Utf8
import CodeAtlas.Value.Json.Parser
import CodeAtlas.Value.Json.Printer

/-!
# Frames

A message travels as a frame: header lines, one of which gives the length of the
body in bytes, a blank line, and the body, which is a value in JSON. Header
lines of other names are passed over, and so are blank lines before the length
is known. Reading looks at the bytes that have arrived and says what follows
from them alone.
-/

namespace CodeAtlas.Server

open CodeAtlas.Text

/-- The text of a frame. All of it is ASCII. -/
def frameText (message : Value) : List Char :=
  let body := Value.Json.compact message
  "Content-Length: ".toList ++ (toString body.length).toList ++ "\r\n\r\n".toList ++ body

def frame (message : Value) : List UInt8 := Utf8.encode (frameText message)

/-- What is wrong with a body. -/
inductive BodyFault
  | bytes (m : Utf8.Malformed)
  | json (text : List Char) (f : Value.Json.Fault)
  deriving DecidableEq, Repr

def BodyFault.message : BodyFault → String
  | bytes m => m.message
  | json text f => f.message text

/-- Why no message can be read. -/
inductive FrameError
  | headerEnds
  | bodyEnds
  | badLength (line : List Char)
  | badBody (fault : BodyFault)
  | negativeLength
  /-- A header line beyond the limit. -/
  | longLine
  /-- An integer in the body with more digits than one may have. -/
  | longNumber
  /-- A body with too many brackets within brackets. -/
  | deepNesting
  deriving DecidableEq, Repr

/-- What the bytes that have arrived begin with. -/
inductive Reading
  | message (v : Value) (rest : List UInt8)
  /-- The stream ended where a frame could start. -/
  | finished
  | failed (e : FrameError)
  /-- More bytes have to arrive. -/
  | waiting
  deriving DecidableEq, Repr

/-- A header line as text: a byte beyond ASCII reads as U+FFFD. -/
def headerText (line : List UInt8) : List Char :=
  trim (line.map fun b => if b < 128 then Char.ofNat b.toNat else Char.ofNat 0xfffd)

/-- The first line, without its line feed, and what follows it. A last line without a line feed is
complete only when the stream has ended. -/
def cutLine? (closed : Bool) (bytes : List UInt8) : Option (List UInt8 × List UInt8) :=
  match bytes.dropWhile (· != 10) with
  | _ :: rest => some (bytes.takeWhile (· != 10), rest)
  | [] => if closed then some (bytes, []) else none

theorem length_cutLine?_lt {closed : Bool} {bytes line rest : List UInt8} (hne : bytes ≠ [])
    (h : cutLine? closed bytes = some (line, rest)) : rest.length < bytes.length := by
  have hle : (bytes.dropWhile (· != 10)).length ≤ bytes.length :=
    (List.dropWhile_suffix _).length_le
  have hpos : 0 < bytes.length := List.length_pos_iff.mpr hne
  unfold cutLine? at h
  split at h
  next b tail heq =>
    rw [heq, List.length_cons] at hle
    simp only [Option.some.injEq, Prod.mk.injEq] at h
    rw [← h.2]
    omega
  next =>
    split at h <;> simp_all

/-- How many bytes may stand before the line feed of a header line. -/
def lineLimit : Nat := 65536

/-- What a header line says about the length. -/
inductive LengthLine
  | none
  | length (n : Int)
  | bad
  deriving DecidableEq, Repr

def lengthLine (line : List Char) : LengthLine :=
  let name := trim (line.takeWhile (· != ':'))
  let value := trim ((line.dropWhile (· != ':')).drop 1)
  if name.map Char.toLower = "content-length".toList then
    match readInteger value with
    | .ok n => .length n
    | .error _ => .bad
  else .none

/-- The error of a body whose text cannot be read. -/
def bodyError (text : List Char) (f : Value.Json.Fault) : FrameError :=
  match f.problem with
  | .longNumber => .longNumber
  | .deepNesting => .deepNesting
  | _ => .badBody (.json text f)

/-- Reads the body of a frame. -/
def readBody (closed : Bool) (length : Int) (bytes : List UInt8) : Reading :=
  if length < 0 then .failed .negativeLength
  else if bytes.length < length.toNat then
    if closed then .failed .bodyEnds else .waiting
  else
    match Utf8.decode (bytes.take length.toNat) with
    | .error m => .failed (.badBody (.bytes m))
    | .ok text =>
      match Value.Json.parse text with
      | .error f => .failed (bodyError text f)
      | .ok v => .message v (bytes.drop length.toNat)

theorem length_readBody_message_le {closed : Bool} {length : Int} {bytes rest : List UInt8}
    {v : Value} (h : readBody closed length bytes = .message v rest) :
    rest.length ≤ bytes.length := by
  unfold readBody at h
  split at h
  · simp at h
  · split at h
    · split at h <;> simp at h
    · split at h
      · simp at h
      · split at h
        · simp at h
        · simp only [Reading.message.injEq] at h
          rw [← h.2, List.length_drop]
          omega

/-- Reads header lines up to the blank line that ends them, then the body. `length` is what the
lines before gave. -/
def readFrom (closed : Bool) (length : Option Int) (bytes : List UInt8) : Reading :=
  if _hne : bytes = [] then
    if closed then if length.isSome then .failed .headerEnds else .finished
    else .waiting
  else
    match _h : cutLine? closed bytes with
    | none => if lineLimit < bytes.length then .failed .longLine else .waiting
    | some (line, rest) =>
      let text := headerText line
      if lineLimit < line.length then .failed .longLine
      else if text.isEmpty then
        match length with
        | none => readFrom closed none rest
        | some n => readBody closed n rest
      else
        match lengthLine text with
        | .none => readFrom closed length rest
        | .length n => readFrom closed (some n) rest
        | .bad => .failed (.badLength text)
termination_by bytes.length
decreasing_by all_goals exact length_cutLine?_lt _hne _h

theorem length_readFrom_message_lt {closed : Bool} {length : Option Int}
    {bytes rest : List UInt8} {v : Value} (h : readFrom closed length bytes = .message v rest) :
    rest.length < bytes.length := by
  fun_induction readFrom closed length bytes with
  | case1 | case2 | case3 | case4 | case5 | case6 | case11 => simp_all
  | case7 bytes hne line next hcut text hlimit htext ih =>
    exact Nat.lt_trans (ih h) (length_cutLine?_lt hne hcut)
  | case8 bytes hne line next hcut text hlimit htext n =>
    exact Nat.lt_of_le_of_lt (length_readBody_message_le h) (length_cutLine?_lt hne hcut)
  | case9 length bytes hne line next hcut text hlimit htext hline ih =>
    exact Nat.lt_trans (ih h) (length_cutLine?_lt hne hcut)
  | case10 length bytes hne line next hcut text hlimit htext n hline ih =>
    exact Nat.lt_trans (ih h) (length_cutLine?_lt hne hcut)

/-- Reads one message from the bytes of a stream, which has ended or may go on. A message that is
null counts as the end. -/
def read (closed : Bool) (bytes : List UInt8) : Reading :=
  match readFrom closed none bytes with
  | .message .null _ => .finished
  | r => r

/-- A message takes some of the bytes. -/
theorem length_read_message_lt {closed : Bool} {bytes rest : List UInt8} {v : Value}
    (h : read closed bytes = .message v rest) : rest.length < bytes.length := by
  unfold read at h
  split at h
  · simp at h
  · exact length_readFrom_message_lt h

end CodeAtlas.Server
