import CodeAtlas.Value.Json.Parser

/-!
# Numbers written in decimal

A number is written with the digits zero to nine, the first of which is zero only
when it is the only one. Both readers of numbers take such digits back: the one of
messages, which goes on to look for a fraction, and the liberal one of header
lines. Each refuses a number with too many digits, so a number has to be writable.
-/

namespace CodeAtlas.Text

theorem toList_toString (n : Nat) : (toString n).toList = Nat.toDigits 10 n := by
  rw [Nat.toString_eq_ofList_toDigits, String.toList_ofList]

theorem length_toDigits_le {n : Nat} (h : isWritable n = true) :
    (Nat.toDigits 10 n).length ≤ digitLimit := by
  have hlength : ∀ k, 0 < k → n < Nat.pow 10 k → (Nat.toDigits 10 n).length ≤ k :=
    fun k hk hlt => (Nat.length_toDigits_le_iff (by decide) hk).mpr hlt
  exact hlength digitLimit (by decide) (of_decide_eq_true h)

theorem toNat_of_mem_toDigits {n : Nat} {c : Char} (h : c ∈ Nat.toDigits 10 n) :
    48 ≤ c.toNat ∧ c.toNat ≤ 57 := by
  have hdigit : c.isDigit = true := Nat.isDigit_of_mem_toDigits (by decide) (by decide) h
  simp only [Char.isDigit, ge_iff_le, Bool.and_eq_true, decide_eq_true_eq] at hdigit
  exact ⟨UInt32.le_iff_toNat_le.mp hdigit.1, UInt32.le_iff_toNat_le.mp hdigit.2⟩

theorem exists_toDigits_eq_cons (n : Nat) :
    ∃ c cs, Nat.toDigits 10 n = c :: cs ∧ 48 ≤ c.toNat ∧ c.toNat ≤ 57 := by
  obtain ⟨c, cs, hcs⟩ := List.exists_cons_of_ne_nil (Nat.toDigits_ne_nil (n := n) (b := 10))
  exact ⟨c, cs, hcs, toNat_of_mem_toDigits (n := n) (by rw [hcs]; exact List.mem_cons_self)⟩

/-- Reading digits one by one gives the number they were written for. -/
theorem foldl_toDigits (n : Nat) :
    (Nat.toDigits 10 n).foldl (fun m c => m * 10 + (c.toNat - '0'.toNat)) 0 = n := by
  have hvalue : Nat.ofDigitChars 10 (Nat.toDigits 10 n) 0 = n := Nat.ofDigitChars_ten_toDigits
  rw [Nat.ofDigitChars_eq_foldl] at hvalue
  simpa only [Nat.mul_comm 10] using hvalue

/-- No number but zero is written with a zero in front. -/
theorem toDigits_eq_zero_cons {n : Nat} {ds : List Char} (h : Nat.toDigits 10 n = '0' :: ds) :
    n = 0 ∧ ds = [] := by
  induction n using Nat.strongRecOn generalizing ds with
  | ind n ih =>
    by_cases hn : n < 10
    · rw [Nat.toDigits_of_lt_base hn, List.cons.injEq, Nat.digitChar_eq_zero] at h
      exact ⟨h.1, h.2.symm⟩
    · rw [Nat.toDigits_of_base_le (by decide) (by omega)] at h
      obtain ⟨c, cs, hcs, -⟩ := exists_toDigits_eq_cons (n / 10)
      rw [hcs, List.cons_append, List.cons.injEq] at h
      have hfront := ih (n / 10) (by omega) (hcs.trans (by rw [h.1]))
      omega

theorem digitValue?_of_digit {c : Char} (h : 48 ≤ c.toNat ∧ c.toNat ≤ 57) :
    digitValue? c = some (c.toNat - '0'.toNat) := by
  have hzero : (decide (0x30 ≤ c.toNat) && decide (c.toNat < 0x30 + 10)) = true := by
    rw [Bool.and_eq_true, decide_eq_true_eq, decide_eq_true_eq]
    omega
  rw [digitValue?, zeros, List.find?_cons, hzero]
  rfl

theorem digitRun_of_digits {ds : List Char} (h : ∀ c ∈ ds, 48 ≤ c.toNat ∧ c.toNat ≤ 57)
    (acc : List Nat) (after : Bool) (hafter : after = true ∨ ds ≠ []) :
    digitRun ds acc after = some ((ds.map fun c => c.toNat - '0'.toNat).reverse ++ acc, []) := by
  induction ds generalizing acc after with
  | nil =>
    have hread : after = true := by simpa using hafter
    simp [digitRun, hread]
  | cons c ds ih =>
    have hc := h c List.mem_cons_self
    have hne : c ≠ '_' := by
      rintro rfl
      exact absurd hc.2 (by decide)
    rw [digitRun, if_neg hne, digitValue?_of_digit hc]
    have hrest := ih (fun d hd => h d (List.mem_cons_of_mem _ hd)) ((c.toNat - '0'.toNat) :: acc)
      true (.inl rfl)
    simpa using hrest

theorem digitsNumber_reverse (ds : List Char) :
    digitsNumber (ds.map fun c => c.toNat - '0'.toNat).reverse =
      ds.foldl (fun m c => m * 10 + (c.toNat - '0'.toNat)) 0 := by
  rw [digitsNumber, List.foldr_reverse, List.foldl_map]

theorem isBlank_of_digit {c : Char} (h : 48 ≤ c.toNat ∧ c.toNat ≤ 57) : isBlank c = false := by
  simp only [isBlank, Bool.or_eq_false_iff, Bool.and_eq_false_iff, decide_eq_false_iff_not,
    beq_eq_false_iff_ne]
  omega

/-- The liberal reader gives back every number that can be written. -/
theorem readInteger_toDigits {n : Nat} (h : isWritable n = true) :
    readInteger (Nat.toDigits 10 n) = .ok n := by
  have hdigits : ∀ c ∈ Nat.toDigits 10 n, 48 ≤ c.toNat ∧ c.toNat ≤ 57 :=
    fun c hc => toNat_of_mem_toDigits hc
  have hrun := digitRun_of_digits hdigits [] false (.inr Nat.toDigits_ne_nil)
  have hunsigned : readUnsigned (Nat.toDigits 10 n) = .ok n := by
    have hlength := length_toDigits_le h
    rw [readUnsigned, hrun]
    simp only [List.append_nil, List.length_reverse, List.length_map, List.all_nil, if_true]
    rw [if_neg (by omega), digitsNumber_reverse, foldl_toDigits]
  -- the first digit is neither a blank nor a sign
  obtain ⟨c, cs, hcs, hc⟩ := exists_toDigits_eq_cons n
  have hminus : c ≠ '-' := by
    rintro rfl
    exact absurd hc.1 (by decide)
  have hplus : c ≠ '+' := by
    rintro rfl
    exact absurd hc.1 (by decide)
  rw [hcs] at hunsigned ⊢
  rw [readInteger, List.dropWhile_cons_of_neg (by simp [isNumberBlank, isBlank_of_digit hc])]
  split
  next heq => exact absurd (List.cons.inj heq).1 hminus
  next heq => exact absurd (List.cons.inj heq).1 hplus
  next => rw [hunsigned]; rfl

end CodeAtlas.Text

namespace CodeAtlas.Value.Json

/-- What may stand behind a value: nothing, a comma or a closing bracket. -/
def Stops (rest : List Char) : Prop :=
  ∀ c, rest.head? = some c → c = ',' ∨ c = ']' ∨ c = '\x7d'

theorem isDigit_of_digit {c : Char} (h : 48 ≤ c.toNat ∧ c.toNat ≤ 57) : isDigit c = true := by
  rw [isDigit, Bool.and_eq_true, decide_eq_true_eq, decide_eq_true_eq]
  exact ⟨UInt32.le_iff_toNat_le.mpr h.1, UInt32.le_iff_toNat_le.mpr h.2⟩

theorem fractionDigits_of_stops {rest : List Char} (h : Stops rest) :
    fractionDigits rest = ([], rest) := by
  cases rest with
  | nil => rfl
  | cons c rest =>
    rcases h c rfl with rfl | rfl | rfl <;> rfl

theorem exponent?_of_stops {rest : List Char} (h : Stops rest) : exponent? rest = none := by
  cases rest with
  | nil => rfl
  | cons c rest =>
    rcases h c rfl with rfl | rfl | rfl <;> rfl

theorem head_not_digit_of_stops {rest : List Char} (h : Stops rest) :
    rest.takeWhile isDigit = [] ∧ rest.dropWhile isDigit = rest := by
  cases rest with
  | nil => exact ⟨rfl, rfl⟩
  | cons c rest =>
    rcases h c rfl with rfl | rfl | rfl <;> exact ⟨rfl, rfl⟩

/-- The digits of a number are read to their end, and as an integer. -/
theorem unsigned_toDigits (negative : Bool) {n : Nat} (hn : Text.isWritable n = true)
    {rest : List Char} (hrest : Stops rest) :
    unsigned negative (Nat.toDigits 10 n ++ rest) =
      .ok (.integer (if negative then -(n : Int) else n), rest) := by
  have hdigits : ∀ c ∈ Nat.toDigits 10 n, isDigit c = true :=
    fun c hc => isDigit_of_digit (Text.toNat_of_mem_toDigits hc)
  have hlength := Text.length_toDigits_le hn
  have hvalue : digitsValue (Nat.toDigits 10 n) = n := Text.foldl_toDigits n
  obtain ⟨htake, hdrop⟩ := head_not_digit_of_stops hrest
  have htaken : (Nat.toDigits 10 n ++ rest).takeWhile isDigit = Nat.toDigits 10 n := by
    rw [List.takeWhile_append_of_pos hdigits, htake, List.append_nil]
  have hleft : (Nat.toDigits 10 n ++ rest).dropWhile isDigit = rest := by
    rw [List.dropWhile_append_of_pos hdigits, hdrop]
  obtain ⟨c, cs, hcs, hc⟩ := Text.exists_toDigits_eq_cons n
  -- behind a zero in front no further digit is read, and none was written
  by_cases hzero : c = '0'
  · obtain ⟨rfl, rfl⟩ := Text.toDigits_eq_zero_cons (hcs.trans (by rw [hzero]))
    rw [Nat.toDigits_zero, List.singleton_append]
    simp [unsigned, fractionDigits_of_stops hrest, exponent?_of_stops hrest, digitsValue,
      Text.digitLimit]
  · rw [hcs] at htaken hleft hlength hvalue ⊢
    rw [List.cons_append] at htaken hleft ⊢
    simpa [unsigned, isDigit_of_digit hc, htaken, hleft, fractionDigits_of_stops hrest,
      exponent?_of_stops hrest, hvalue] using hlength

end CodeAtlas.Value.Json
