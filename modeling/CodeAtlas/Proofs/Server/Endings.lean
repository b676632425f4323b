import CodeAtlas.Proofs.Server.Frames
import CodeAtlas.Proofs.Value.Limits
import Mathlib.Logic.Relation

/-!
# How reading a stream ends

A stream that has ended is read line by line until its header does, and then its body.
The lines are steps of a small machine, which knows the length that was given last and
the bytes that are left. Every run of it stops, and where it stops decides how the
reading ends: with a value, at the end of the stream, with a protocol error or with a
closed connection. Two kinds of streams have no such ending. One gives a negative
length, the other has an integer in its body with more digits than one may have.
-/

namespace CodeAtlas.Server

open CodeAtlas.Text
open CodeAtlas.Value (Json.parse Json.nestingLimit Json.NestsBeyond Json.HasLongInteger)

/-- What reading a header knows: the length that was given last, and the bytes that are left. -/
structure Progress where
  known : Option Int
  left : List UInt8

/-- The first line of bytes after which no more come, and what follows it. -/
structure NextLine (bytes line rest : List UInt8) : Prop where
  ne_nil : bytes ≠ []
  cut : cutLine? true bytes = some (line, rest)

/-- A line that does not end the reading. -/
inductive HeaderStep : Progress → Progress → Prop
  | blank {left line rest : List UInt8} (hline : NextLine left line rest)
    (htext : headerText line = []) : HeaderStep ⟨none, left⟩ ⟨none, rest⟩
  | other {known : Option Int} {left line rest : List UInt8} (hline : NextLine left line rest)
    (htext : headerText line ≠ []) (hlength : lengthLine (headerText line) = .none) :
    HeaderStep ⟨known, left⟩ ⟨known, rest⟩
  | length {known : Option Int} {left line rest : List UInt8} {n : Int}
    (hline : NextLine left line rest) (htext : headerText line ≠ [])
    (hlength : lengthLine (headerText line) = .length n) : HeaderStep ⟨known, left⟩ ⟨some n, rest⟩

def Reaches (bytes : List UInt8) (s : Progress) : Prop :=
  Relation.ReflTransGen HeaderStep ⟨none, bytes⟩ s

/-- A line of the header, whatever it says. -/
def HeaderLine (bytes line : List UInt8) : Prop :=
  ∃ s rest, Reaches bytes s ∧ NextLine s.left line rest

/-- The header ends with a blank line, the last length given in it is `n`, and `body` follows. -/
def Announces (bytes : List UInt8) (n : Int) (body : List UInt8) : Prop :=
  ∃ left line, Reaches bytes ⟨some n, left⟩ ∧ NextLine left line body ∧ headerText line = []

/-- The body that was announced is there, and it is this text. -/
def BodyText (bytes : List UInt8) (text : List Char) : Prop :=
  ∃ n body, Announces bytes n body ∧ 0 ≤ n ∧ n.toNat ≤ body.length ∧
    Utf8.decode (body.take n.toNat) = .ok text

/-- The ways in which reading a message should end. -/
inductive Ending
  | value (v : Value)
  | endOfStream
  | protocolError
  | connectionClosed
  deriving DecidableEq, Repr

/-- How reading a stream should end. -/
inductive EndsWith (bytes : List UInt8) : Ending → Prop
  | endOfStream (h : Reaches bytes ⟨none, []⟩) : EndsWith bytes .endOfStream
  | headerCut {n : Int} (h : Reaches bytes ⟨some n, []⟩) : EndsWith bytes .connectionClosed
  | bodyCut {n : Int} {body : List UInt8} (h : Announces bytes n body)
    (hcut : body.length < n) : EndsWith bytes .connectionClosed
  | badLength {line : List UInt8} (h : HeaderLine bytes line)
    (hbad : lengthLine (headerText line) = .bad) : EndsWith bytes .protocolError
  | badBytes {n : Int} {body : List UInt8} {m : Utf8.Malformed} (h : Announces bytes n body)
    (hn : 0 ≤ n) (hbody : n.toNat ≤ body.length)
    (hdecode : Utf8.decode (body.take n.toNat) = .error m) : EndsWith bytes .protocolError
  | badValue {text : List Char} {f : Value.Json.Fault} (h : BodyText bytes text)
    (hparse : Json.parse text = .error f) : EndsWith bytes .protocolError
  | value {text : List Char} {v : Value} (h : BodyText bytes text)
    (hparse : Json.parse text = .ok v) : EndsWith bytes (.value v)

/-- The ending that a reading stands for, none when its error is neither about the protocol nor
about the connection. -/
def Reading.ending? : Reading → Option Ending
  | .message v _ => some (.value v)
  | .finished => some .endOfStream
  | .failed (.badLength _) => some .protocolError
  | .failed (.badBody _) => some .protocolError
  | .failed .headerEnds => some .connectionClosed
  | .failed .bodyEnds => some .connectionClosed
  | _ => none

/-- A null cannot be told from the end of the stream. -/
def Ending.handedOver : Ending → Ending
  | .value .null => .endOfStream
  | e => e

theorem eq_of_handedOver {e : Ending} {v : Value} (h : e.handedOver = .value v) :
    e = .value v := by
  unfold Ending.handedOver at h
  split at h
  · contradiction
  · exact h

theorem exists_of_ending?_value {r : Reading} {v : Value} (h : r.ending? = some (.value v)) :
    ∃ rest, r = .message v rest := by
  unfold Reading.ending? at h
  split at h <;> cases h
  exact ⟨_, rfl⟩

theorem ending?_read {bytes : List UInt8} {e : Ending}
    (h : (readFrom true none bytes).ending? = some e) :
    (read true bytes).ending? = some e.handedOver := by
  unfold read
  split
  next heq =>
    rw [heq] at h
    cases h
    rfl
  next hnull =>
    have hkept : e.handedOver = e := by
      unfold Ending.handedOver
      split
      next =>
        obtain ⟨rest, hmessage⟩ := exists_of_ending?_value h
        exact absurd hmessage (hnull rest)
      next => rfl
    rw [h, hkept]

theorem lengthLine_nil : lengthLine [] = .none := by decide +kernel

/-- A step changes nothing about what will be read. -/
theorem HeaderStep.readFrom {s t : Progress} (h : HeaderStep s t)
    (hshort : ∀ line rest, NextLine s.left line rest → line.length ≤ lineLimit) :
    readFrom true s.known s.left = Server.readFrom true t.known t.left := by
  cases h with
  | blank hline htext =>
    rw [readFrom_of_cutLine? hline.ne_nil hline.cut (hshort _ _ hline), htext]
    rfl
  | other hline htext hlength =>
    rw [readFrom_of_cutLine? hline.ne_nil hline.cut (hshort _ _ hline), hlength,
      if_neg (by simpa using htext)]
  | length hline htext hlength =>
    rw [readFrom_of_cutLine? hline.ne_nil hline.cut (hshort _ _ hline), hlength,
      if_neg (by simpa using htext)]

theorem readFrom_of_reaches {bytes : List UInt8} {s : Progress}
    (hlines : ∀ line, HeaderLine bytes line → line.length ≤ lineLimit) (h : Reaches bytes s) :
    readFrom true none bytes = readFrom true s.known s.left := by
  induction h with
  | refl => rfl
  | @tail s t hs hstep ih =>
    rw [ih]
    exact hstep.readFrom fun line rest hline => hlines line ⟨s, rest, hs, hline⟩

/-- The rest of a header is shorter than what was left before its first line. -/
theorem NextLine.length_lt {bytes line rest : List UInt8} (h : NextLine bytes line rest) :
    rest.length < bytes.length := length_cutLine?_lt h.ne_nil h.cut

theorem exists_nextLine {bytes : List UInt8} (h : bytes ≠ []) :
    ∃ line rest, NextLine bytes line rest := by
  cases hcut : cutLine? true bytes with
  | some cut => exact ⟨cut.1, cut.2, h, hcut⟩
  | none =>
    unfold cutLine? at hcut
    split at hcut <;> contradiction

/-- Where no step leads on: the bytes end, a line gives no length, or a blank line stands behind one
that gave it. -/
def Stopped (s : Progress) : Prop :=
  s.left = [] ∨ ∃ line rest, NextLine s.left line rest ∧
    (lengthLine (headerText line) = .bad ∨ headerText line = [] ∧ s.known ≠ none)

theorem stopped_or_step (s : Progress) :
    Stopped s ∨ ∃ t, HeaderStep s t ∧ t.left.length < s.left.length := by
  obtain ⟨known, left⟩ := s
  by_cases hleft : left = []
  · exact Or.inl (Or.inl hleft)
  obtain ⟨line, rest, hline⟩ := exists_nextLine hleft
  by_cases htext : headerText line = []
  · cases known with
    | none => exact Or.inr ⟨⟨none, rest⟩, .blank hline htext, hline.length_lt⟩
    | some n => exact Or.inl (Or.inr ⟨line, rest, hline, Or.inr ⟨htext, nofun⟩⟩)
  · cases hlength : lengthLine (headerText line) with
    | none => exact Or.inr ⟨⟨known, rest⟩, .other hline htext hlength, hline.length_lt⟩
    | length n => exact Or.inr ⟨⟨some n, rest⟩, .length hline htext hlength, hline.length_lt⟩
    | bad => exact Or.inl (Or.inr ⟨line, rest, hline, Or.inl hlength⟩)

/-- Every header is read up to where no step leads on. -/
theorem exists_stopped (s : Progress) :
    ∃ t, Relation.ReflTransGen HeaderStep s t ∧ Stopped t := by
  induction hsize : s.left.length using Nat.strong_induction_on generalizing s with
  | _ size ih =>
    obtain hstopped | ⟨t, hstep, hlt⟩ := stopped_or_step s
    · exact ⟨s, .refl, hstopped⟩
    · obtain ⟨u, hrun, hu⟩ := ih t.left.length (hsize ▸ hlt) t rfl
      exact ⟨u, .head hstep hrun, hu⟩

theorem bodyError_within {text : List Char} {f : Value.Json.Fault}
    (h : Json.parse text = .error f) (hnesting : ¬ Json.NestsBeyond Json.nestingLimit text)
    (hinteger : ¬ Json.HasLongInteger text) : bodyError text f = .badBody (.json text f) := by
  unfold bodyError
  split
  next hf => exact absurd (Value.Json.hasLongInteger_of_parseWithin h hf) hinteger
  next hf => exact absurd (Value.Json.nestsBeyond_of_parseWithin h hf) hnesting
  next => rfl

section Lines

variable {bytes : List UInt8} (hlines : ∀ line, HeaderLine bytes line → line.length ≤ lineLimit)
include hlines

theorem readFrom_of_announces {n : Int} {body : List UInt8} (h : Announces bytes n body) :
    readFrom true none bytes = readBody true n body := by
  obtain ⟨left, line, hreach, hline, htext⟩ := h
  have hshort := hlines line ⟨_, body, hreach, hline⟩
  rw [readFrom_of_reaches hlines hreach, readFrom_of_cutLine? hline.ne_nil hline.cut hshort, htext]
  rfl

theorem readFrom_of_negative {n : Int} {body : List UInt8} (h : Announces bytes n body)
    (hn : n < 0) : readFrom true none bytes = .failed .negativeLength := by
  rw [readFrom_of_announces hlines h, readBody, if_pos hn]

theorem readFrom_of_bodyText {text : List Char} (h : BodyText bytes text) :
    (∀ v, Json.parse text = .ok v → ∃ rest, readFrom true none bytes = .message v rest) ∧
    ∀ f, Json.parse text = .error f → readFrom true none bytes = .failed (bodyError text f) := by
  obtain ⟨n, body, hannounces, hn, hlength, hdecode⟩ := h
  rw [readFrom_of_announces hlines hannounces, readBody, if_neg (by omega), if_neg (by omega),
    hdecode]
  constructor
  · intro v hv
    exact ⟨body.drop n.toNat, by simp only [hv]⟩
  · intro f hf
    simp only [hf]

/-- How a reading ends, where the text of its body is within the limits. -/
theorem ending?_of_endsWith {e : Ending}
    (hnesting : ∀ text, BodyText bytes text → ¬ Json.NestsBeyond Json.nestingLimit text)
    (hinteger : ∀ text, BodyText bytes text → ¬ Json.HasLongInteger text)
    (h : EndsWith bytes e) : (readFrom true none bytes).ending? = some e := by
  cases h with
  | endOfStream h =>
    rw [readFrom_of_reaches hlines h, readFrom]
    rfl
  | headerCut h =>
    rw [readFrom_of_reaches hlines h, readFrom]
    rfl
  | @bodyCut n body h hcut =>
    rw [readFrom_of_announces hlines h, readBody, if_neg (by omega), if_pos (by omega)]
    rfl
  | @badLength line h hbad =>
    obtain ⟨s, rest, hreach, hline⟩ := h
    have htext : headerText line ≠ [] := by
      intro hnil
      rw [hnil, lengthLine_nil] at hbad
      contradiction
    rw [readFrom_of_reaches hlines hreach, readFrom_of_cutLine? hline.ne_nil hline.cut
      (hlines line ⟨s, rest, hreach, hline⟩), hbad, if_neg (by simpa using htext)]
    rfl
  | badBytes h hn hbody hdecode =>
    rw [readFrom_of_announces hlines h, readBody, if_neg (by omega), if_neg (by omega), hdecode]
    rfl
  | @badValue text f h hparse =>
    rw [(readFrom_of_bodyText hlines h).2 f hparse,
      bodyError_within hparse (hnesting text h) (hinteger text h)]
    rfl
  | @value text v h hparse =>
    obtain ⟨rest, hmessage⟩ := (readFrom_of_bodyText hlines h).1 v hparse
    rw [hmessage]
    rfl

end Lines

/-- Where no length is negative, the reading should end in one of the four ways. -/
theorem exists_endsWith {bytes : List UInt8} (h : ∀ n body, Announces bytes n body → 0 ≤ n) :
    ∃ e, EndsWith bytes e := by
  obtain ⟨⟨known, left⟩, hreach, hleft | ⟨line, rest, hline, hbad | ⟨htext, hknown⟩⟩⟩ :=
    exists_stopped ⟨none, bytes⟩
  · obtain rfl : left = [] := hleft
    cases known with
    | none => exact ⟨_, .endOfStream hreach⟩
    | some n => exact ⟨_, .headerCut hreach⟩
  · exact ⟨_, .badLength ⟨_, rest, hreach, hline⟩ hbad⟩
  · obtain ⟨n, rfl⟩ := Option.ne_none_iff_exists'.mp hknown
    have hannounces : Announces bytes n rest := ⟨left, line, hreach, hline, htext⟩
    have hn := h n rest hannounces
    by_cases hcut : rest.length < n
    · exact ⟨_, .bodyCut hannounces hcut⟩
    have hlength : n.toNat ≤ rest.length := by omega
    cases hdecode : Utf8.decode (rest.take n.toNat) with
    | error m => exact ⟨_, .badBytes hannounces hn hlength hdecode⟩
    | ok text =>
      have hbody : BodyText bytes text := ⟨n, rest, hannounces, hn, hlength, hdecode⟩
      cases hparse : Json.parse text with
      | error f => exact ⟨_, .badValue hbody hparse⟩
      | ok v => exact ⟨_, .value hbody hparse⟩

theorem read_of_failed {closed : Bool} {bytes : List UInt8} {e : FrameError}
    (h : readFrom closed none bytes = .failed e) : read closed bytes = .failed e := by
  rw [read, h]

theorem NextLine.length_line_le {bytes line rest : List UInt8} (h : NextLine bytes line rest) :
    line.length ≤ bytes.length := by
  have hcut := h.cut
  unfold cutLine? at hcut
  split at hcut
  · cases hcut
    exact (List.takeWhile_prefix _).length_le
  · cases hcut
    exact Nat.le_refl _

theorem Reaches.length_le {bytes : List UInt8} {s : Progress} (h : Reaches bytes s) :
    s.left.length ≤ bytes.length := by
  induction h with
  | refl => exact Nat.le_refl _
  | tail _ hstep ih =>
    cases hstep with
    | blank hline | other hline | length hline => exact hline.length_lt.le.trans ih

theorem BodyText.length_le {bytes : List UInt8} {text : List Char} (h : BodyText bytes text) :
    text.length ≤ bytes.length := by
  obtain ⟨n, body, ⟨left, line, hreach, hline, -⟩, -, -, hdecode⟩ := h
  have htext := Utf8.length_le_of_decode hdecode
  have htake := List.length_take_le' n.toNat body
  have hbody := hline.length_lt
  have hleft := hreach.length_le
  dsimp only at hleft
  omega

/-- A stream with fewer bytes than brackets may be open goes beyond no limit. -/
theorem within_limits {bytes : List UInt8} (h : bytes.length ≤ Json.nestingLimit) :
    (∀ line, HeaderLine bytes line → line.length ≤ lineLimit) ∧
    (∀ text, BodyText bytes text → ¬ Json.NestsBeyond Json.nestingLimit text) ∧
    ∀ text, BodyText bytes text → ¬ Json.HasLongInteger text := by
  have hline : Json.nestingLimit ≤ lineLimit := by decide
  have hdigits : Json.nestingLimit ≤ digitLimit := by decide
  refine ⟨?_, ?_, ?_⟩
  · rintro line ⟨s, rest, hreach, hnext⟩
    exact (hnext.length_line_le.trans hreach.length_le).trans (h.trans hline)
  · intro text hbody hnests
    exact absurd (hnests.lt_length.trans_le hbody.length_le) (Nat.not_lt.mpr h)
  · intro text hbody hlong
    exact absurd (hlong.lt_length.trans_le hbody.length_le) (Nat.not_lt.mpr (h.trans hdigits))

/-- A stream has ended, its header lines have no more bytes than a line may have, and the text of
its body no more brackets open at once. If the length it announces is not negative and its body has
no integer with too many digits, then exactly one of the four endings is right for it, and reading
it ends so, where a null reads like the end of the stream. With a negative length it always fails
otherwise, and so it does when the integer that is too long is met. -/
theorem read_ends_in_one_way (bytes : List UInt8)
    (hlines : ∀ line, HeaderLine bytes line → line.length ≤ lineLimit)
    (hnesting : ∀ text, BodyText bytes text → ¬ Json.NestsBeyond Json.nestingLimit text) :
    ((∀ n body, Announces bytes n body → 0 ≤ n) →
      (∀ text, BodyText bytes text → ¬ Json.HasLongInteger text) →
      ∃ e, (∀ e', EndsWith bytes e' ↔ e' = e) ∧
        (read true bytes).ending? = some e.handedOver) ∧
    (∀ n body, Announces bytes n body → n < 0 →
      read true bytes = .failed .negativeLength ∧ (read true bytes).ending? = none) ∧
    ∀ text f, BodyText bytes text → Json.parse text = .error f → f.problem = .longNumber →
      read true bytes = .failed .longNumber ∧ (read true bytes).ending? = none := by
  refine ⟨?_, ?_, ?_⟩
  · intro hn hinteger
    obtain ⟨e, he⟩ := exists_endsWith hn
    have hending := fun {e'} => ending?_of_endsWith (e := e') hlines hnesting hinteger
    refine ⟨e, fun e' => ⟨?_, ?_⟩, ending?_read (hending he)⟩
    · intro he'
      exact Option.some.inj ((hending he').symm.trans (hending he))
    · rintro rfl
      exact he
  · intro n body hannounces hn
    have hread := read_of_failed (readFrom_of_negative hlines hannounces hn)
    rw [hread]
    exact ⟨rfl, rfl⟩
  · intro text f hbody hparse hf
    have hread := read_of_failed ((readFrom_of_bodyText hlines hbody).2 f hparse)
    rw [hread, bodyError, hf]
    exact ⟨rfl, rfl⟩

theorem length_disguised : disguisedPacket.bytes.length ≤ Json.nestingLimit := by decide +kernel

theorem read_ends_in_one_way_disguised :
    (∀ line, HeaderLine disguisedPacket.bytes line → line.length ≤ lineLimit) ∧
    (∀ text, BodyText disguisedPacket.bytes text → ¬ Json.NestsBeyond Json.nestingLimit text) ∧
    (∀ n body, Announces disguisedPacket.bytes n body → 0 ≤ n) ∧
    (∀ text, BodyText disguisedPacket.bytes text → ¬ Json.HasLongInteger text) ∧
    ∀ e, EndsWith disguisedPacket.bytes e ↔ e = .value disguised := by
  obtain ⟨hlines, hnesting, hinteger⟩ := within_limits length_disguised
  have hends := read_ends_in_one_way disguisedPacket.bytes hlines hnesting
  have hread : read true disguisedPacket.bytes = .message disguised [] := by
    have hpacket := disguisedPacket.read true []
    rwa [List.append_nil] at hpacket
  have hn : ∀ n body, Announces disguisedPacket.bytes n body → 0 ≤ n := by
    intro n body hannounces
    by_contra hnegative
    have hfailed := (hends.2.1 n body hannounces (by omega)).1
    rw [hread] at hfailed
    contradiction
  obtain ⟨e, he, hending⟩ := hends.1 hn hinteger
  rw [hread] at hending
  have hvalue : e = .value disguised := eq_of_handedOver (Option.some.inj hending).symm
  exact ⟨hlines, hnesting, hn, hinteger, hvalue ▸ he⟩

/-- A frame with a negative length. -/
def negativeFrame : List UInt8 := Utf8.encode "Content-Length: -1\r\n\r\n\x7b\x7d".toList

/-- Reading a frame with a negative length ends in none of the four ways, within all limits. -/
theorem read_negative_length :
    (∀ line, HeaderLine negativeFrame line → line.length ≤ lineLimit) ∧
    (∀ text, BodyText negativeFrame text → ¬ Json.NestsBeyond Json.nestingLimit text) ∧
    read true negativeFrame = .failed .negativeLength ∧
    (read true negativeFrame).ending? = none := by
  have hsize : negativeFrame.length ≤ Json.nestingLimit := by decide +kernel
  obtain ⟨hlines, hnesting, -⟩ := within_limits hsize
  have hlength : NextLine negativeFrame (Utf8.encode "Content-Length: -1\r".toList)
      [13, 10, 123, 125] := ⟨by decide +kernel, by decide +kernel⟩
  have hblank : NextLine [13, 10, 123, 125] [13] [123, 125] := ⟨by decide, by decide⟩
  have hreach : Reaches negativeFrame ⟨some (-1), [13, 10, 123, 125]⟩ :=
    .single (.length hlength (by decide +kernel) (by decide +kernel))
  have hannounces : Announces negativeFrame (-1) [123, 125] :=
    ⟨[13, 10, 123, 125], [13], hreach, hblank, by decide⟩
  have hread := read_of_failed (readFrom_of_negative hlines hannounces (by decide))
  rw [hread]
  exact ⟨hlines, hnesting, rfl, rfl⟩

end CodeAtlas.Server
