import CodeAtlas.Proofs.Table
import CodeAtlas.Value.Basic
import Mathlib.Algebra.Order.Field.Power
import Mathlib.Data.Rat.Floor

/-!
# Integers that values stand for

Where an integer is expected, a truth value, a number or a text may be given. A number
with a fraction is cut off toward zero: upward below zero, downward above. Only numbers
that are infinite, or none at all, have no whole part.
-/

namespace CodeAtlas

namespace Binary64

/-- The number that sign, mantissa and exponent stand for. -/
def rational (negative : Bool) (mantissa : Nat) (exponent : Int) : ℚ :=
  (if negative then -1 else 1) * (mantissa * 2 ^ exponent)

/-- What is left of a number when its fraction is cut off. -/
def wholePart (q : ℚ) : Int := if 0 ≤ q then ⌊q⌋ else ⌈q⌉

theorem wholePart_neg {q : ℚ} (h : 0 ≤ q) : wholePart (-q) = -⌊q⌋ := by
  unfold wholePart
  split
  next hneg =>
    have hzero : q = 0 := by linarith
    simp [hzero]
  next => exact Int.ceil_neg

/-- A fraction has the size of the number. -/
theorem fraction_eq (mantissa : Nat) (exponent : Int) :
    ((fraction mantissa exponent).1 : ℚ) / ((fraction mantissa exponent).2 : ℚ) =
      mantissa * 2 ^ exponent := by
  cases exponent with
  | ofNat e => simp [fraction]
  | negSucc e => simp [fraction, zpow_negSucc, div_eq_mul_inv]

theorem truncate?_finite (negative : Bool) (mantissa : Nat) (exponent : Int) :
    truncate? (.finite negative mantissa exponent) =
      some (wholePart (rational negative mantissa exponent)) := by
  have hfloor : ⌊(mantissa * 2 ^ exponent : ℚ)⌋ =
      (((fraction mantissa exponent).1 / (fraction mantissa exponent).2 : Nat) : Int) := by
    rw [← fraction_eq]
    norm_cast
  have hsize : (0 : ℚ) ≤ mantissa * 2 ^ exponent := by positivity
  cases negative with
  | false => simp [truncate?, rational, wholePart, hsize, hfloor]
  | true => simp [truncate?, rational, wholePart_neg hsize, hfloor]

end Binary64

namespace Value

/-- A value stands for an integer: a truth value for zero or one, a number for its whole part, a
text for what it spells. -/
inductive Denotes : Value → Int → Prop
  | boolean (b : Bool) : Denotes (.boolean b) (if b then 1 else 0)
  | integer (n : Int) : Denotes (.integer n) n
  | real (negative : Bool) (mantissa : Nat) (exponent : Int) :
    Denotes (.real (.finite negative mantissa exponent))
      (Binary64.wholePart (Binary64.rational negative mantissa exponent))
  | text {s : String} {n : Int} (h : Text.readInteger s.toList = .ok n) : Denotes (.text s) n

theorem toInteger_eq_ok_iff (v : Value) (n : Int) : v.toInteger = .ok n ↔ Denotes v n := by
  constructor
  · intro h
    cases v with
    | boolean b =>
      cases h
      exact .boolean b
    | integer m =>
      cases h
      exact .integer n
    | real x =>
      cases x with
      | finite negative mantissa exponent =>
        simp only [toInteger, Binary64.truncate?_finite, Option.getD_some, Except.ok.injEq] at h
        subst h
        exact .real negative mantissa exponent
      | infinite | notANumber => cases h
    | text s =>
      simp only [toInteger] at h
      split at h
      next m hm =>
        cases h
        exact .text hm
      next => cases h
      next => cases h
    | null | list | record => cases h
  · intro h
    cases h with
    | boolean | integer => rfl
    | real => simp [toInteger, Binary64.truncate?_finite]
    | text h => simp [toInteger, h]

mutual

/-- No number in a value is infinite or none at all. -/
def isFinite : Value → Bool
  | .real (.finite _ _ _) => true
  | .real _ => false
  | .list items => allFinite items
  | .record fields => fieldsFinite fields
  | _ => true

def allFinite : List Value → Bool
  | [] => true
  | v :: vs => v.isFinite && allFinite vs

def fieldsFinite : List (String × Value) → Bool
  | [] => true
  | (_, v) :: fs => v.isFinite && fieldsFinite fs

end

theorem isFinite_of_lookup {fields : List (String × Value)} (h : fieldsFinite fields = true)
    {key : String} {v : Value} (hv : fields.lookup key = some v) : v.isFinite = true := by
  induction fields with
  | nil => cases hv
  | cons field fields ih =>
    obtain ⟨k, w⟩ := field
    simp only [fieldsFinite, Bool.and_eq_true] at h
    rw [Table.lookup_cons_ite] at hv
    split at hv
    · exact Option.some.inj hv ▸ h.1
    · exact ih h.2 hv

theorem isFinite_getD_lookup {fields : List (String × Value)} (h : fieldsFinite fields = true)
    (key : String) {d : Value} (hd : d.isFinite = true) :
    ((fields.lookup key).getD d).isFinite = true := by
  cases hv : fields.lookup key with
  | none => exact hd
  | some v => exact isFinite_of_lookup h hv

end Value

end CodeAtlas
