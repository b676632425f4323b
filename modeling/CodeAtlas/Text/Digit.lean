import CodeAtlas.Text.Blank

/-!
# Decimal digits

Every script's decimal digits are ten consecutive characters, zero to nine. An
integer is read liberally: blanks around it, a sign, digits of any script, and
single underscores between digits, but not too many of them.
-/

namespace CodeAtlas.Text

/-- The zeros of all scripts. -/
def zeros : List Nat := [
  0x30, 0x660, 0x6f0, 0x7c0, 0x966, 0x9e6, 0xa66, 0xae6, 0xb66, 0xbe6, 0xc66, 0xce6, 0xd66,
  0xde6, 0xe50, 0xed0, 0xf20, 0x1040, 0x1090, 0x17e0, 0x1810, 0x1946, 0x19d0, 0x1a80, 0x1a90,
  0x1b50, 0x1bb0, 0x1c40, 0x1c50, 0xa620, 0xa8d0, 0xa900, 0xa9d0, 0xa9f0, 0xaa50, 0xabf0,
  0xff10, 0x104a0, 0x10d30, 0x11066, 0x110f0, 0x11136, 0x111d0, 0x112f0, 0x11450, 0x114d0,
  0x11650, 0x116c0, 0x11730, 0x118e0, 0x11950, 0x11c50, 0x11d50, 0x11da0, 0x16a60, 0x16ac0,
  0x16b50, 0x1d7ce, 0x1d7d8, 0x1d7e2, 0x1d7ec, 0x1d7f6, 0x1e140, 0x1e2f0, 0x1e950, 0x1fbf0]

/-- The value of a decimal digit of any script. -/
def digitValue? (c : Char) : Option Nat :=
  (zeros.find? fun z => z ≤ c.toNat && c.toNat < z + 10).map (c.toNat - ·)

/-- The digits at the front of a text, last digit first, and what follows them. A single underscore
may stand between two digits; `after` says that a digit has just been read. None when there are no
digits, or when an underscore is not between two of them. -/
def digitRun : List Char → (acc : List Nat) → (after : Bool) → Option (List Nat × List Char)
  | [], acc, after => if after then some (acc, []) else none
  | c :: cs, acc, after =>
    if c = '_' then if after then digitRun cs acc false else none
    else match digitValue? c with
      | some d => digitRun cs (d :: acc) true
      | none => if after then some (acc, c :: cs) else none

/-- The number of some digits, last digit first. -/
def digitsNumber (ds : List Nat) : Nat := ds.foldr (fun d n => n * 10 + d) 0

/-- Blanks that may stand around an integer: all but the information separators. -/
def isNumberBlank (c : Char) : Bool := isBlank c && !(0x1c ≤ c.toNat && c.toNat ≤ 0x1f)

/-- How many digits an integer may be written with. -/
def digitLimit : Nat := 4300

/-- Whether an integer can be written. -/
def isWritable (n : Int) : Bool := n.natAbs < Nat.pow 10 digitLimit

/-- Why a text is no integer. -/
inductive NumeralFault
  | malformed
  /-- More digits than an integer may have. -/
  | tooLong (digits : Nat)
  deriving DecidableEq, Repr

/-- Reads digits and the blanks that may follow them. Their number counts first. -/
def readUnsigned (cs : List Char) : Except NumeralFault Nat :=
  match digitRun cs [] false with
  | none => .error .malformed
  | some (ds, rest) =>
    if digitLimit < ds.length then .error (.tooLong ds.length)
    else if rest.all isNumberBlank then .ok (digitsNumber ds)
    else .error .malformed

/-- Reads an integer: blanks around it, an optional sign, then digits. -/
def readInteger (cs : List Char) : Except NumeralFault Int :=
  match cs.dropWhile isNumberBlank with
  | '-' :: ds => (readUnsigned ds).map fun n => -(n : Int)
  | '+' :: ds => (readUnsigned ds).map fun n => (n : Int)
  | ds => (readUnsigned ds).map fun n => (n : Int)

/-- Digits without the zeros at their front, of which the last stays when there is nothing else. An
underscore behind such a zero goes with it. -/
def dropLeadingZeros (cs : List Char) : List Char :=
  if cs.head? = some '0' then
    match cs.dropWhile fun c => c == '0' || c == '_' with
    | [] => cs.getLast?.toList
    | ds => ds
  else cs

/-- Reads an integer that was given as an argument: blanks around it, an optional sign, digits of
which those at the front may be zeros, and a fraction that is zero. -/
def readArgument? (cs : List Char) : Option Int :=
  let cs := ((cs.dropWhile isNumberBlank).reverse.dropWhile isNumberBlank).reverse
  let (negative, body) := match cs with
    | '-' :: r => (true, r)
    | '+' :: r => (false, r)
    | r => (false, r)
  let whole := body.takeWhile (· != '.')
  let digits := if negative then whole else dropLeadingZeros whole
  let plain := digits.all fun c => c.isDigit || c == '_'
  if plain && ((body.dropWhile (· != '.')).drop 1).all (· == '0') then
    match digitRun digits [] false with
    | some (ds, []) =>
      let n : Int := (digitsNumber ds : Nat)
      if digitLimit < ds.length + (if negative then 1 else 0) then none
      else some (if negative then -n else n)
    | _ => none
  else none

end CodeAtlas.Text
