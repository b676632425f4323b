/-!
# Positions

A position in a list counts from its start, or back from its end when it is
below zero. Reading from a position below zero runs over the end and then over
the whole list.
-/

namespace CodeAtlas.Text

variable {α : Type}

/-- The place of a position, within the list. -/
def place (length : Nat) (p : Int) : Nat :=
  if p < 0 then (length + p).toNat else min p.toNat length

/-- What stands between two positions. -/
def between (xs : List α) (start stop : Int) : List α :=
  (xs.take (place xs.length stop)).drop (place xs.length start)

/-- What is read from a position on. None when the position lies before the start. -/
def readingFrom? (xs : List α) (start : Int) : Option (List α) :=
  if 0 ≤ start then some (xs.drop start.toNat)
  else if 0 ≤ xs.length + start then some (xs.drop (xs.length + start).toNat ++ xs)
  else none

theorem readingFrom?_of_nonneg (xs : List α) (n : Nat) :
    readingFrom? xs n = some (xs.drop n) := by
  simp [readingFrom?]

theorem place_natCast (length n : Nat) : place length n = min n length := by
  rw [place, if_neg (by omega), Int.toNat_natCast]

theorem between_natCast (xs : List α) (start stop : Nat) :
    between xs start stop = (xs.drop start).take (stop - start) := by
  rw [between, place_natCast, place_natCast, List.drop_take]
  rcases Nat.le_total start xs.length with h | h
  · rw [Nat.min_eq_left h, List.take_eq_take_iff, List.length_drop]
    omega
  · simp [Nat.min_eq_right h, List.drop_of_length_le h]

theorem between_add (xs : List α) (start n : Nat) :
    between xs start (start + n : Nat) = (xs.drop start).take n := by
  rw [between_natCast, Nat.add_sub_cancel_left]

end CodeAtlas.Text
