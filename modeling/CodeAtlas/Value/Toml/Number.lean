import CodeAtlas.Text.Digit
import CodeAtlas.Text.Split
import CodeAtlas.Value.Basic
import CodeAtlas.Value.Json.Parser

/-!
# Numbers of settings documents

Integers are decimal, or have a mark for the base sixteen, eight or two. Numbers
with a point or an exponent, dates and times can be written too. Nothing in the
settings depends on what they are, so a date or a time is kept as a number that is
not zero.
-/

namespace CodeAtlas.Value.Toml

open CodeAtlas.Text

/-- Without the blanks that may stand around a number. -/
def trimNumber (cs : List Char) : List Char :=
  ((cs.dropWhile isNumberBlank).reverse.dropWhile isNumberBlank).reverse

/-- A sign at the front: whether it is a minus, and what follows. -/
def cutSign : List Char → Bool × List Char
  | '-' :: cs => (true, cs)
  | '+' :: cs => (false, cs)
  | cs => (false, cs)

/-- Digits behind a point, when one stands there. -/
def fractionPart : List Char → Option (List Nat × List Char)
  | '.' :: c :: cs =>
    if (digitValue? c).isSome then digitRun (c :: cs) [] false else some ([], c :: cs)
  | ['.'] => some ([], [])
  | cs => some ([], cs)

/-- An exponent, when one stands there. -/
def exponentPart : List Char → Option (Int × List Char)
  | [] => some (0, [])
  | c :: cs =>
    if c = 'e' || c = 'E' then
      let (negative, ds) := cutSign cs
      (digitRun ds [] false).map fun (ds, rest) =>
        let n : Int := (digitsNumber ds : Nat)
        (if negative then -n else n, rest)
    else some (0, c :: cs)

/-- A number with an optional point and exponent. -/
def decimal? (negative : Bool) (cs : List Char) : Option Binary64 := do
  let (whole, rest) ← if cs.head? = some '.' then some ([], cs) else digitRun cs [] false
  let (fraction, rest) ← fractionPart rest
  let (exponent, rest) ← exponentPart rest
  if rest.isEmpty && !(whole.isEmpty && fraction.isEmpty) then
    some (.ofDecimal negative (digitsNumber (fraction ++ whole)) (exponent - fraction.length))
  else none

/-- A number, or the name of one that is not finite. -/
def real? (cs : List Char) : Option Binary64 :=
  let (negative, body) := cutSign (trimNumber cs)
  let name := String.ofList (body.map Char.toLower)
  if name = "inf" || name = "infinity" then some (.infinite negative)
  else if name = "nan" then some .notANumber
  else decimal? negative body

/-- The base of a mark behind a zero. -/
def baseOf? (c : Char) : Option Nat :=
  match c.toLower with
  | 'x' => some 16
  | 'o' => some 8
  | 'b' => some 2
  | _ => none

/-- Reads digits of a base; single underscores may stand between them. -/
def basedDigits? (base : Nat) : List Char → Nat → (after : Bool) → Option Nat
  | [], n, after => if after then some n else none
  | c :: cs, n, after =>
    if c = '_' then if after then basedDigits? base cs n false else none
    else
      match (digitValue? c).or (Json.hexValue? c) with
      | some d => if d < base then basedDigits? base cs (n * base + d) true else none
      | none => none

/-- Decimal digits. Zeros at the front are not allowed. -/
def wholeDigits? (cs : List Char) : Option Nat :=
  match readUnsigned cs with
  | .ok n => if cs.head? = some '0' && 1 < cs.length then none else some n
  | .error _ => none

/-- An integer without its first sign. -/
def integerBody? (cs : List Char) : Option Int :=
  let (negative, body) := cutSign (trimNumber cs)
  let size := match body with
    | '0' :: mark :: ds =>
      match baseOf? mark, ds with
      | some base, '_' :: ds => basedDigits? base ds 0 false
      | some base, ds => basedDigits? base ds 0 false
      | none, _ => wholeDigits? body
    | _ => wholeDigits? body
  size.map fun n => if negative then -(n : Int) else n

/-- Reads a number: an integer, or one with a point or an exponent. -/
def number? (cs : List Char) : Option Value :=
  let (negative, body) := cutSign cs
  let name := String.ofList (body.map Char.toLower)
  let broken := body.contains '.'
  if broken || (!body.contains 'x' && (body.contains 'e' || body.contains 'E')) then
    let bare := broken && ((cutAt? ['.'] body).map Prod.snd) = some []
    if bare || !(body.head?.map Char.isDigit).getD false then none
    else (decimal? negative body).map .real
  else if name = "inf" || name = "nan" then (real? cs).map .real
  else (integerBody? body).map fun n => .integer (if negative then -n else n)

/-- The integer between two places. -/
def integerAt? (cs : List Char) (start stop : Nat) : Option Int :=
  match readInteger ((cs.take stop).drop start) with
  | .ok n => some n
  | .error _ => none

/-- How many days a month has. -/
def monthDays (year month : Int) : Int :=
  if month = 2 then
    if year % 4 = 0 && (year % 100 ≠ 0 || year % 400 = 0) then 29 else 28
  else if month = 4 || month = 6 || month = 9 || month = 11 then 30
  else 31

def isWithin (low high n : Int) : Bool := low ≤ n && n ≤ high

/-- The year of a date, alone or with a time. -/
def dateYear? (cs : List Char) : Option Int := do
  let year ← integerAt? cs 0 4
  let month ← integerAt? cs 5 7
  let day ← integerAt? cs 8 10
  let onTime ←
    if cs.length = 10 then some true
    else do
      let hour ← integerAt? cs 11 13
      let minute ← integerAt? cs 14 16
      let second ← integerAt? cs 17 19
      some (isWithin 0 23 hour && isWithin 0 59 minute && isWithin 0 59 second)
  if (cs.drop 1).contains '-' && isWithin 1 9999 year && isWithin 1 12 month &&
      isWithin 1 (monthDays year month) day && onTime then some year
  else none

/-- Whether a time starts here: three pairs of digits with colons between. -/
def startsTime : List Char → Bool
  | a :: b :: ':' :: c :: d :: ':' :: e :: f :: _ => [a, b, c, d, e, f].all Char.isDigit
  | _ => false

/-- The hour of a time that a clock can show. -/
def timeHour? (cs : List Char) : Option Int := do
  let hour ← integerAt? cs 0 2
  let minute ← integerAt? cs 3 5
  let second ← integerAt? cs 6 8
  if isWithin 0 23 hour && isWithin 0 59 minute && isWithin 0 59 second then some hour else none

end CodeAtlas.Value.Toml
