import CodeAtlas.Text.Quoted

/-!
# Bytes and text

Text is written as UTF-8. Bytes are read back as a list of segments, each a
character or a malformed part. A malformed part is as long as the longest run of
bytes that could have begun a character there, and at least one byte long. The
three ways of reading (strict, with replacement, leaving malformed parts out)
are three views of the segments.
-/

namespace CodeAtlas.Text.Utf8

/-- What is wrong with a malformed part. -/
inductive Defect
  | start
  | continuation
  | truncated
  deriving DecidableEq, Repr

inductive Segment
  | char (c : Char)
  | bad (defect : Defect) (length : Nat)
  deriving DecidableEq, Repr

def encodeChar (c : Char) : List UInt8 :=
  let n := c.toNat
  if n < 0x80 then [n.toUInt8]
  else if n < 0x800 then [(0xc0 + n / 0x40).toUInt8, (0x80 + n % 0x40).toUInt8]
  else if n < 0x10000 then
    [(0xe0 + n / 0x1000).toUInt8, (0x80 + n / 0x40 % 0x40).toUInt8, (0x80 + n % 0x40).toUInt8]
  else
    [(0xf0 + n / 0x40000).toUInt8, (0x80 + n / 0x1000 % 0x40).toUInt8,
      (0x80 + n / 0x40 % 0x40).toUInt8, (0x80 + n % 0x40).toUInt8]

def encode (cs : List Char) : List UInt8 := cs.flatMap encodeChar

/-- What a first byte opens: the number of bytes that follow it, its share of the code point, and
the range of the byte after it. -/
structure Opening where
  more : Nat
  high : Nat
  low : Nat
  top : Nat

def opening? (b : UInt8) : Option Opening :=
  let n := b.toNat
  if n < 0x80 then some ⟨0, n, 0, 0⟩
  else if 0xc2 ≤ n ∧ n ≤ 0xdf then some ⟨1, n - 0xc0, 0x80, 0xbf⟩
  else if n = 0xe0 then some ⟨2, 0, 0xa0, 0xbf⟩
  else if n = 0xed then some ⟨2, 0x0d, 0x80, 0x9f⟩
  else if 0xe1 ≤ n ∧ n ≤ 0xef then some ⟨2, n - 0xe0, 0x80, 0xbf⟩
  else if n = 0xf0 then some ⟨3, 0, 0x90, 0xbf⟩
  else if 0xf1 ≤ n ∧ n ≤ 0xf3 then some ⟨3, n - 0xf0, 0x80, 0xbf⟩
  else if n = 0xf4 then some ⟨3, 4, 0x80, 0x8f⟩
  else none

/-- Takes the bytes that continue a character: `more` of them, the next between `low` and `top`.
`taken` counts the bytes before. -/
def continuation : (more code taken low top : Nat) → List UInt8 → Segment
  | 0, code, _, _, _, _ => .char (Char.ofNat code)
  | _ + 1, _, taken, _, _, [] => .bad .truncated taken
  | more + 1, code, taken, low, top, b :: bs =>
    if low ≤ b.toNat ∧ b.toNat ≤ top then
      continuation more (code * 0x40 + (b.toNat - 0x80)) (taken + 1) 0x80 0xbf bs
    else .bad .continuation taken

/-- The segment that starts with byte `b`. -/
def first (b : UInt8) (bs : List UInt8) : Segment :=
  match opening? b with
  | none => .bad .start 1
  | some o => continuation o.more o.high 1 o.low o.top bs

def Segment.length : Segment → Nat
  | .char c => (encodeChar c).length
  | .bad _ n => n

/-- The segments of a byte string. `skip` bytes of the segment before are still to pass. -/
def segmentsFrom : (skip : Nat) → List UInt8 → List Segment
  | _, [] => []
  | 0, b :: bs => first b bs :: segmentsFrom ((first b bs).length - 1) bs
  | skip + 1, _ :: bs => segmentsFrom skip bs

def segments (bs : List UInt8) : List Segment := segmentsFrom 0 bs

/-- Malformed parts read as U+FFFD. -/
def decodeReplacing (bs : List UInt8) : List Char :=
  (segments bs).map fun
    | .char c => c
    | .bad _ _ => Char.ofNat 0xfffd

/-- Malformed parts left out. -/
def decodeLossy (bs : List UInt8) : List Char :=
  (segments bs).filterMap fun
    | .char c => some c
    | .bad _ _ => none

/-- Where and why a byte string is no text. -/
structure Malformed where
  byte : UInt8
  position : Nat
  length : Nat
  defect : Defect
  deriving DecidableEq, Repr

/-- The text of well-formed bytes, or the first malformed part. -/
def decode (bs : List UInt8) : Except Malformed (List Char) :=
  go (segments bs) 0 []
where
  go : List Segment → Nat → List Char → Except Malformed (List Char)
  | [], _, acc => .ok acc.reverse
  | .char c :: rest, pos, acc => go rest (pos + (encodeChar c).length) (c :: acc)
  | .bad d n :: _, pos, _ => .error ⟨bs.getD pos 0, pos, n, d⟩

def Defect.message : Defect → String
  | .start => "invalid start byte"
  | .continuation => "invalid continuation byte"
  | .truncated => "unexpected end of data"

def Malformed.message (m : Malformed) : String :=
  if m.length = 1 then
    s!"'utf-8' codec can't decode byte 0x{String.ofList (hex 2 m.byte.toNat)} " ++
      s!"in position {m.position}: {m.defect.message}"
  else
    s!"'utf-8' codec can't decode bytes in position {m.position}-" ++
      s!"{m.position + m.length - 1}: {m.defect.message}"

end CodeAtlas.Text.Utf8
