/-!
# Binary numbers of 64 bits

A number written with a point or an exponent stands for the nearest binary
number of 64 bits, ties to the even mantissa. It is kept as sign, mantissa and
power of two, so that truncation and comparison are exact, and printed with the
fewest decimal digits that read back as the same number.
-/

namespace CodeAtlas

/-- A number of 64 bits: `mantissa * 2 ^ exponent` with a sign, or no finite number. -/
inductive Binary64
  | finite (negative : Bool) (mantissa : Nat) (exponent : Int)
  | infinite (negative : Bool)
  | notANumber
  deriving DecidableEq, Repr, Inhabited

namespace Binary64

/-- `num / den` rounded to the nearest natural number, a tie to the even one. -/
def roundDiv (num den : Nat) : Nat :=
  let q := num / den
  let r := num % den
  if 2 * r < den then q
  else if 2 * r > den then q + 1
  else if q % 2 = 0 then q else q + 1

/-- `num / den` scaled by `2 ^ -exponent`, rounded. -/
def scaled (num den : Nat) (exponent : Int) : Nat :=
  match exponent with
  | .ofNat e => roundDiv num (den * Nat.pow 2 e)
  | .negSucc e => roundDiv (num * Nat.pow 2 (e + 1)) den

/-- Whether `num / den` is at least `2 ^ power`. -/
def atLeastPower (num den : Nat) (power : Int) : Bool :=
  match power with
  | .ofNat p => den * Nat.pow 2 p ≤ num
  | .negSucc p => den ≤ num * Nat.pow 2 (p + 1)

/-- The number nearest to the fraction `num / den`, for positive `num` and `den`. Its mantissa has
53 digits in base two unless the number is too small for that. -/
def ofFraction (negative : Bool) (num den : Nat) : Binary64 :=
  let guess : Int := (num.log2 : Int) - (den.log2 : Int)
  let lead := if atLeastPower num den guess then guess else guess - 1
  let exponent := max (lead - 52) (-1074)
  let mantissa := scaled num den exponent
  let (mantissa, exponent) :=
    if mantissa = Nat.pow 2 53 then (Nat.pow 2 52, exponent + 1) else (mantissa, exponent)
  if exponent > 971 then .infinite negative else .finite negative mantissa exponent

/-- The number nearest to `digits * 10 ^ exponent`. -/
def ofDecimal (negative : Bool) (digits : Nat) (exponent : Int) : Binary64 :=
  if digits = 0 then .finite negative 0 0
  else
    let size : Int := (Nat.toDigits 10 digits).length + exponent
    if size > 310 then .infinite negative
    else if size < -330 then .finite negative 0 0
    else match exponent with
      | .ofNat e => ofFraction negative (digits * Nat.pow 10 e) 1
      | .negSucc e => ofFraction negative digits (Nat.pow 10 (e + 1))

/-- Size without sign, as a fraction. -/
def fraction (mantissa : Nat) : Int → Nat × Nat
  | .ofNat e => (mantissa * Nat.pow 2 e, 1)
  | .negSucc e => (mantissa, Nat.pow 2 (e + 1))

/-- The integer part, toward zero; none when there is no finite value. -/
def truncate? : Binary64 → Option Int
  | .finite negative m e =>
    let (num, den) := fraction m e
    let n : Int := (num / den : Nat)
    some (if negative then -n else n)
  | _ => none

def isZero : Binary64 → Bool
  | .finite _ m _ => m == 0
  | _ => false

/-- The value when it is an integer. -/
def integer? : Binary64 → Option Int
  | .finite negative m e =>
    let (num, den) := fraction m e
    if num % den = 0 then
      let n : Int := (num / den : Nat)
      some (if negative then -n else n)
    else none
  | _ => none

/-- The power of ten of the first digit of a positive fraction. -/
def leadingPower (num den : Nat) : Int :=
  if num ≥ den then (Nat.toDigits 10 (num / den)).length - 1
  else go 400 1 num
where
  go : Nat → Nat → Nat → Int
  | 0, k, _ => -k
  | fuel + 1, k, n => if n * 10 ≥ den then -k else go fuel (k + 1) (n * 10)

/-- Compares fractions: is `a / b ≤ c / d`? -/
def fractionLe (x y : Nat × Nat) : Bool := x.1 * y.2 ≤ y.1 * x.2

def fractionLt (x y : Nat × Nat) : Bool := x.1 * y.2 < y.1 * x.2

/-- `digits * 10 ^ power` as a fraction. -/
def decimalFraction (digits : Nat) : Int → Nat × Nat
  | .ofNat e => (digits * Nat.pow 10 e, 1)
  | .negSucc e => (digits, Nat.pow 10 (e + 1))

/-- The fewest digits, and the power of ten of the last one, that read back as `mantissa * 2 ^
exponent`. Of two such numbers the nearer is taken, and of two as near the even one. -/
def shortest (mantissa : Nat) (exponent : Int) : Nat × Int :=
  let value := fraction mantissa exponent
  let low :=
    if mantissa = Nat.pow 2 52 ∧ exponent > -1074 then fraction (4 * mantissa - 1) (exponent - 2)
    else fraction (2 * mantissa - 1) (exponent - 1)
  let high := fraction (2 * mantissa + 1) (exponent - 1)
  let inside (x : Nat × Nat) : Bool :=
    if mantissa % 2 = 0 then fractionLe low x && fractionLe x high
    else fractionLt low x && fractionLt x high
  let lead := leadingPower value.1 value.2
  let candidate (n : Nat) : Option (Nat × Int) :=
    let power := lead - (n : Int) + 1
    let unit := decimalFraction 1 power
    let below := value.1 * unit.2 / (value.2 * unit.1)
    let rest := value.1 * unit.2 % (value.2 * unit.1)
    let okBelow := below > 0 && inside (decimalFraction below power)
    let okAbove := inside (decimalFraction (below + 1) power)
    let whole := value.2 * unit.1
    let nearBelow := 2 * rest < whole || (2 * rest = whole && below % 2 = 0)
    if okBelow && (nearBelow || !okAbove) then some (below, power)
    else if okAbove then some (below + 1, power)
    else none
  ((List.range 17).findSome? fun n => candidate (n + 1)).getD (mantissa, exponent)

/-- Digits without the zeros at the end, and the power of the last one kept. -/
def dropZeros : Nat → Nat → Int → Nat × Int
  | 0, d, p => (d, p)
  | fuel + 1, d, p => if d ≠ 0 ∧ d % 10 = 0 then dropZeros fuel (d / 10) (p + 1) else (d, p)

/-- Decimal text: positional from one ten-thousandth up to ten to the sixteenth, with at least one
digit behind the point, and with an exponent of at least two digits outside. -/
def text : Binary64 → String
  | .notANumber => "nan"
  | .infinite negative => if negative then "-inf" else "inf"
  | .finite negative m e =>
    let sign := if negative then "-" else ""
    if m = 0 then sign ++ "0.0"
    else
      let (d, p) := shortest m e
      let (d, p) := dropZeros 17 d p
      let digits := Nat.toDigits 10 d
      let lead : Int := p + digits.length - 1
      if -4 ≤ lead ∧ lead < 16 then
        if p ≥ 0 then sign ++ String.ofList (digits ++ List.replicate p.toNat '0' ++ ['.', '0'])
        else if lead ≥ 0 then
          let whole := (lead + 1).toNat
          sign ++ String.ofList (digits.take whole ++ ['.'] ++ digits.drop whole)
        else
          sign ++ String.ofList (['0', '.'] ++ List.replicate (-lead - 1).toNat '0' ++ digits)
      else
        let size := Nat.toDigits 10 lead.natAbs
        let size := if size.length < 2 then '0' :: size else size
        let mark := if lead < 0 then ['e', '-'] else ['e', '+']
        let tail := if digits.length > 1 then '.' :: digits.drop 1 else []
        sign ++ String.ofList (digits.take 1 ++ tail ++ mark ++ size)

end Binary64

end CodeAtlas
