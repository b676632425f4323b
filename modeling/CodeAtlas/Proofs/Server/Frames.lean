import CodeAtlas.Proofs.Text
import CodeAtlas.Proofs.Value.RoundTrip
import CodeAtlas.Server.Frame

/-!
# Frames that are read back

A frame is a line with the length, a blank line and the body. Lines before it that
are blank or of another name are passed over. Reading takes exactly the bytes of the
frame, so it leaves what follows as it was, and messages sent one behind another are
read in their order.
-/

namespace CodeAtlas.Server

open CodeAtlas.Text
open CodeAtlas.Value (Json.compact Json.parse)

theorem cutLine?_append {line : List UInt8} (h : 10 ∉ line) (closed : Bool) (rest : List UInt8) :
    cutLine? closed (line ++ 10 :: rest) = some (line, rest) := by
  have hne : ∀ b ∈ line, (b != 10) = true := by
    intro b hb
    have hb' : b ≠ 10 := fun he => h (he ▸ hb)
    simpa using hb'
  rw [cutLine?, List.dropWhile_append_of_pos hne, List.takeWhile_append_of_pos hne,
    List.dropWhile_cons_of_neg (by decide), List.takeWhile_cons_of_neg (by decide),
    List.append_nil]

/-- Reading goes on behind the first line, as the line says. -/
theorem readFrom_of_cutLine? {closed : Bool} {bytes line rest : List UInt8} (hne : bytes ≠ [])
    (hcut : cutLine? closed bytes = some (line, rest)) (hshort : line.length ≤ lineLimit)
    (length : Option Int) :
    readFrom closed length bytes =
      if (headerText line).isEmpty then
        match length with
        | none => readFrom closed none rest
        | some n => readBody closed n rest
      else
        match lengthLine (headerText line) with
        | .none => readFrom closed length rest
        | .length n => readFrom closed (some n) rest
        | .bad => .failed (.badLength (headerText line)) := by
  rw [readFrom, dif_neg hne]
  split
  next hnone => rw [hcut] at hnone; cases hnone
  next hsome =>
    rw [hcut] at hsome
    cases hsome
    exact if_neg (by omega)

/-- The name of a header line. -/
def headerName (text : List Char) : List Char := trim (text.takeWhile (· != ':'))

/-- A line that may stand before the length of a frame: blank, or of another name in any mixture of
capitals and small letters. -/
structure PassedLine where
  bytes : List UInt8
  noFeed : 10 ∉ bytes
  short : bytes.length ≤ lineLimit
  other : headerText bytes = [] ∨
    (headerName (headerText bytes)).map Char.toLower ≠ "content-length".toList

theorem PassedLine.readFrom (line : PassedLine) (closed : Bool) (rest : List UInt8) :
    readFrom closed none (line.bytes ++ 10 :: rest) = Server.readFrom closed none rest := by
  rw [readFrom_of_cutLine? (by simp) (cutLine?_append line.noFeed closed rest) line.short]
  rcases line.other with hblank | hname
  · rw [hblank]
    rfl
  · have hnone : lengthLine (headerText line.bytes) = .none := by
      rw [lengthLine]
      exact if_neg hname
    rw [hnone]
    split <;> rfl

theorem readFrom_passed (lines : List PassedLine) (closed : Bool) (rest : List UInt8) :
    readFrom closed none ((lines.flatMap fun l => l.bytes ++ [10]) ++ rest) =
      readFrom closed none rest := by
  induction lines with
  | nil => rfl
  | cons line lines ih =>
    rw [List.flatMap_cons, List.append_assoc, List.append_assoc, List.singleton_append,
      line.readFrom, ih]

theorem headerText_encode {cs : List Char} (h : Ascii cs) :
    headerText (Utf8.encode cs) = trim cs := by
  have hchars : ∀ c ∈ cs, (if c.toNat.toUInt8 < 128 then Char.ofNat c.toNat.toUInt8.toNat
      else Char.ofNat 0xfffd) = c := by
    intro c hc
    have hnat := Utf8.toNat_toUInt8 (h c hc)
    have hlt : c.toNat.toUInt8 < 128 := UInt8.lt_iff_toNat_lt.mpr (by rw [hnat]; exact h c hc)
    rw [if_pos hlt, hnat, Char.ofNat_toNat]
  rw [headerText, Utf8.encode_of_ascii h, List.map_map]
  exact congrArg trim ((List.map_congr_left hchars).trans (List.map_id' cs))

/-- What the line with a length says. -/
def lengthText (n : Nat) : List Char := "Content-Length: ".toList ++ (toString n).toList

/-- The line with a length, up to its line feed. -/
def lengthBytes (n : Nat) : List UInt8 := Utf8.encode (lengthText n ++ ['\r'])

theorem lengthText_eq (n : Nat) :
    lengthText n = "Content-Length: ".toList ++ Nat.toDigits 10 n :=
  congrArg ("Content-Length: ".toList ++ ·) (toList_toString n)

theorem ascii_lengthText (n : Nat) : Ascii (lengthText n) := by
  have hlabel : Ascii "Content-Length: ".toList := by decide +kernel
  have hdigits : Ascii (Nat.toDigits 10 n) := by
    intro c hc
    have hrange := toNat_of_mem_toDigits hc
    omega
  rw [lengthText_eq]
  exact hlabel.append hdigits

theorem solid_toDigits (n : Nat) : Solid (Nat.toDigits 10 n) where
  ne_nil := Nat.toDigits_ne_nil
  head _ hc := isBlank_of_digit (toNat_of_mem_toDigits (List.mem_of_head? hc))
  last _ hc := isBlank_of_digit (toNat_of_mem_toDigits (List.mem_of_getLast? hc))

theorem solid_lengthText (n : Nat) : Solid (lengthText n) where
  ne_nil := by
    rw [lengthText_eq]
    exact List.append_ne_nil_of_right_ne_nil _ Nat.toDigits_ne_nil
  head c hc := by
    have hfirst : "Content-Length: ".toList.head? = some 'C' := by decide +kernel
    rw [lengthText_eq, List.head?_append, hfirst] at hc
    obtain rfl : 'C' = c := Option.some.inj hc
    decide
  last c hc := by
    have hlast := List.getLast?_eq_some_getLast (Nat.toDigits_ne_nil (n := n) (b := 10))
    rw [lengthText_eq, List.getLast?_append, hlast] at hc
    exact (solid_toDigits n).last c (hlast.trans hc)

theorem lengthLine_lengthText {n : Nat} (h : isWritable n = true) :
    lengthLine (lengthText n) = .length n := by
  have hlabel : "Content-Length: ".toList = "Content-Length".toList ++ [':', ' '] := by
    decide +kernel
  have hcut : lengthText n = "Content-Length".toList ++ ':' :: (' ' :: Nat.toDigits 10 n) := by
    rw [lengthText_eq, hlabel, List.append_assoc, List.cons_append, List.singleton_append]
  have hcolon : ':' ∉ "Content-Length".toList := by decide +kernel
  have hname : (trim "Content-Length".toList).map Char.toLower = "content-length".toList := by
    decide +kernel
  have hvalue : trim (' ' :: Nat.toDigits 10 n) = Nat.toDigits 10 n := by
    simpa using (solid_toDigits n).trim_append (b := [' ']) (e := [])
      (List.forall_mem_singleton.mpr (by decide)) (List.forall_mem_nil _)
  simp only [lengthLine, hcut, takeWhile_bne_append hcolon, dropWhile_bne_append hcolon, hname,
    if_true, List.drop_one, List.tail_cons, hvalue, readInteger_toDigits h]

theorem ascii_lengthLine (n : Nat) : Ascii (lengthText n ++ ['\r']) :=
  (ascii_lengthText n).append (by decide)

theorem feed_not_mem_lengthBytes (n : Nat) : 10 ∉ lengthBytes n := by
  have hfeed : '\n'.toNat.toUInt8 = 10 := rfl
  have hdigits : '\n' ∉ Nat.toDigits 10 n := fun h =>
    absurd (toNat_of_mem_toDigits h).1 (by decide)
  rw [lengthBytes, ← hfeed]
  apply Utf8.not_mem_encode (ascii_lengthLine n) _ (by decide)
  rw [lengthText_eq]
  simp [hdigits]

theorem length_lengthBytes_le {n : Nat} (h : isWritable n = true) :
    (lengthBytes n).length ≤ lineLimit := by
  have hlabel : "Content-Length: ".toList.length = 16 := by decide +kernel
  have hdigits := length_toDigits_le h
  rw [lengthBytes, Utf8.length_encode (ascii_lengthLine n), lengthText_eq, List.length_append,
    List.length_append, hlabel, lineLimit]
  rw [digitLimit] at hdigits
  simp only [List.length_singleton]
  omega

theorem headerText_lengthBytes (n : Nat) : headerText (lengthBytes n) = lengthText n := by
  rw [lengthBytes, headerText_encode (ascii_lengthLine n)]
  exact (solid_lengthText n).trim_append (b := []) (List.forall_mem_nil _)
    (List.forall_mem_singleton.mpr (by decide))

theorem frame_eq (message : Value) :
    frame message = lengthBytes (Json.compact message).length ++
      10 :: ([13] ++ 10 :: Utf8.encode (Json.compact message)) := by
  have hend : Utf8.encode "\r\n\r\n".toList = [13, 10, 13, 10] := by decide +kernel
  have hreturn : Utf8.encode ['\r'] = [13] := by decide +kernel
  have htext : frameText message = lengthText (Json.compact message).length ++
      ("\r\n\r\n".toList ++ Json.compact message) := by
    rw [← List.append_assoc]
    rfl
  rw [frame, htext, lengthBytes]
  simp only [Utf8.encode_append, hend, hreturn, List.append_assoc, List.cons_append,
    List.nil_append]

theorem readBody_encode {message : Value} {text : List Char} (hascii : Ascii text)
    (hparse : Json.parse text = .ok message) (closed : Bool) (rest : List UInt8) :
    readBody closed text.length (Utf8.encode text ++ rest) = .message message rest := by
  have hlength := Utf8.length_encode hascii
  have htake : (Utf8.encode text ++ rest).take text.length = Utf8.encode text := by
    rw [← hlength, List.take_left']
    rfl
  have hdrop : (Utf8.encode text ++ rest).drop text.length = rest := by
    rw [← hlength, List.drop_left']
    rfl
  rw [readBody, if_neg (by omega), Int.toNat_natCast,
    if_neg (by rw [List.length_append, hlength]; omega), htake, Utf8.decode_encode hascii]
  simp only [hparse, hdrop]

/-- The line with the length, the blank line and the body, whatever follows. -/
theorem readFrom_frame {message : Value} (hplain : Value.Json.Plain message)
    (hparse : Json.parse (Json.compact message) = .ok message)
    (hcounted : isWritable (Json.compact message).length = true) (closed : Bool)
    (rest : List UInt8) :
    readFrom closed none (frame message ++ rest) = .message message rest := by
  have hbody := readBody_encode hplain.ascii_compact hparse closed rest
  -- a line with nothing but its carriage return is blank, and now the length is known
  have hblank : headerText [13] = [] := by decide
  have hfeed : 10 ∉ ([13] : List UInt8) := by decide
  have hbehind := readFrom_of_cutLine? (by simp)
    (cutLine?_append hfeed closed (Utf8.encode (Json.compact message) ++ rest)) (by decide)
    (some (Json.compact message).length)
  rw [hblank] at hbehind
  have hcut := cutLine?_append (feed_not_mem_lengthBytes (Json.compact message).length) closed
    (([13] ++ 10 :: Utf8.encode (Json.compact message)) ++ rest)
  rw [frame_eq, List.append_assoc, List.cons_append,
    readFrom_of_cutLine? (by simp) hcut (length_lengthBytes_le hcounted), headerText_lengthBytes,
    if_neg (by simpa using (solid_lengthText _).ne_nil), lengthLine_lengthText hcounted]
  exact hbehind.trans hbody

/-- What travels for one message: lines that are passed over, and its frame. The message is read
back from its own text, and the length of that text can be written. -/
structure Packet where
  lead : List PassedLine
  message : Value
  plain : Value.Json.Plain message
  notNull : message ≠ .null
  inverts : Json.parse (Json.compact message) = .ok message
  counted : isWritable (Json.compact message).length = true

def Packet.bytes (p : Packet) : List UInt8 :=
  (p.lead.flatMap fun l => l.bytes ++ [10]) ++ frame p.message

theorem Packet.read (p : Packet) (closed : Bool) (rest : List UInt8) :
    read closed (p.bytes ++ rest) = .message p.message rest := by
  have hfrom : readFrom closed none (p.bytes ++ rest) = .message p.message rest := by
    rw [Packet.bytes, List.append_assoc, readFrom_passed]
    exact readFrom_frame p.plain p.inverts p.counted closed rest
  rw [Server.read, hfrom]
  split
  next heq => exact absurd (Reading.message.inj heq).1 p.notNull
  next => rfl

/-- The messages at the front of a stream, and what stands where no message does. -/
def readAll (closed : Bool) (bytes : List UInt8) : List Value × Reading :=
  match _h : read closed bytes with
  | .message v rest => ((v :: (readAll closed rest).1), (readAll closed rest).2)
  | r => ([], r)
termination_by bytes.length
decreasing_by all_goals exact length_read_message_lt _h

theorem readAll_of_message {closed : Bool} {bytes rest : List UInt8} {v : Value}
    (h : read closed bytes = .message v rest) :
    readAll closed bytes = (v :: (readAll closed rest).1, (readAll closed rest).2) := by
  rw [readAll]
  split
  next heq =>
    rw [h] at heq
    cases heq
    rfl
  next hno => exact absurd h (hno v rest)

theorem read_nil (closed : Bool) : read closed [] = if closed then .finished else .waiting := by
  rw [read, readFrom, dif_pos rfl]
  cases closed <;> rfl

theorem readAll_nil (closed : Bool) :
    readAll closed [] = ([], if closed then .finished else .waiting) := by
  rw [readAll]
  split
  next heq =>
    rw [read_nil] at heq
    split at heq <;> cases heq
  next => rw [read_nil]

/-- The messages of packets come first, in their order, and then what follows the packets. -/
theorem readAll_append (packets : List Packet) (closed : Bool) (rest : List UInt8) :
    readAll closed (packets.flatMap Packet.bytes ++ rest) =
      (packets.map Packet.message ++ (readAll closed rest).1, (readAll closed rest).2) := by
  induction packets with
  | nil => rfl
  | cons p packets ih =>
    rw [List.flatMap_cons, List.append_assoc, readAll_of_message (p.read closed _), ih]
    rfl

/-- A value within the limits of the reader is read back from its text. A packet is read from the
front of any stream, and what follows it is left. The messages of packets one behind another are
read in their order; then a stream that has ended is finished, and any other waits. -/
theorem frames_read_back_in_order :
    (∀ v, Value.Json.Fits Value.Json.nestingLimit v → Json.parse (Json.compact v) = .ok v) ∧
    (∀ (p : Packet) (closed : Bool) (rest : List UInt8),
      read closed (p.bytes ++ rest) = .message p.message rest) ∧
    ∀ (packets : List Packet) (closed : Bool),
      readAll closed (packets.flatMap Packet.bytes) =
        (packets.map Packet.message, if closed then .finished else .waiting) := by
  refine ⟨fun v => Value.Json.parse_compact, Packet.read, ?_⟩
  intro packets closed
  have hall := readAll_append packets closed []
  rwa [List.append_nil, readAll_nil, List.append_nil] at hall

/-- A message whose text looks like the header of another. -/
def disguised : Value := .record [
  ("text", .text "é\r\n\r\nContent-Length: 3\r\n\r\n"),
  ("ids", .list [.integer (-7), .null, .boolean true])]

theorem fits_disguised : Value.Json.Fits Value.Json.nestingLimit disguised := by
  refine .record (by decide) ?_
  simp only [List.forall_mem_cons, List.not_mem_nil, false_implies, implies_true, and_true]
  refine ⟨.text _, .list ?_⟩
  simp only [List.forall_mem_cons, List.not_mem_nil, false_implies, implies_true, and_true]
  exact ⟨.integer (by decide +kernel), .null, .boolean true⟩

/-- The message behind a blank line and a line of another name. -/
def disguisedPacket : Packet where
  lead := [
    ⟨[13], by decide, by decide, .inl (by decide)⟩,
    ⟨Utf8.encode "CONTENT-Type: a".toList, by decide +kernel, by decide +kernel,
      .inr (by decide +kernel)⟩]
  message := disguised
  plain := fits_disguised.plain
  notNull := by simp [disguised]
  inverts := Value.Json.parse_compact fits_disguised
  counted := by decide +kernel

theorem frames_read_back_disguised :
    Value.Json.Fits Value.Json.nestingLimit disguised ∧
    Json.parse (Json.compact disguised) = .ok disguised ∧
    read false (disguisedPacket.bytes ++ [10, 10]) = .message disguised [10, 10] ∧
    readAll true (disguisedPacket.bytes ++ disguisedPacket.bytes) =
      ([disguised, disguised], .finished) := by
  refine ⟨fits_disguised, frames_read_back_in_order.1 disguised fits_disguised,
    frames_read_back_in_order.2.1 disguisedPacket false [10, 10], ?_⟩
  have hread := frames_read_back_in_order.2.2 [disguisedPacket, disguisedPacket] true
  rwa [List.flatMap_cons, List.flatMap_singleton] at hread

end CodeAtlas.Server
