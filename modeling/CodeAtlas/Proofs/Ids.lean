import CodeAtlas.Proofs.Text
import CodeAtlas.Symbol

/-!
# Ids tell declarations apart

An id is made of file, name and line with colons between them. A line is written
without a colon, so what stands behind the last colon of an id is the line. If
names have no colons either, the name stands before it and the rest is the file,
which may have as many colons as it likes.
-/

namespace CodeAtlas

theorem toList_ofNat (n : Nat) : (toString (Int.ofNat n)).toList = Nat.toDigits 10 n := by
  have htext : toString (Int.ofNat n) = String.ofList (Nat.toDigits 10 n) := rfl
  rw [htext, String.toList_ofList]

theorem toList_negSucc (n : Nat) :
    (toString (Int.negSucc n)).toList = '-' :: Nat.toDigits 10 (n + 1) := by
  have htext : toString (Int.negSucc n) = "-" ++ String.ofList (Nat.toDigits 10 (n + 1)) := rfl
  simp [htext]

theorem not_mem_toDigits {c : Char} (hc : c.isDigit = false) (n : Nat) : c ∉ Nat.toDigits 10 n := by
  intro hmem
  have hdigit := Nat.isDigit_of_mem_toDigits (by decide) (by decide) hmem
  simp [hc] at hdigit

theorem colon_not_mem_line (line : Int) : ':' ∉ (toString line).toList := by
  cases line with
  | ofNat n =>
    rw [toList_ofNat]
    exact not_mem_toDigits (by decide) n
  | negSucc n =>
    rw [toList_negSucc, List.mem_cons, not_or]
    exact ⟨by decide, not_mem_toDigits (by decide) (n + 1)⟩

/-- A line can be read back from what is written. -/
theorem line_inj {line line' : Int} (h : (toString line).toList = (toString line').toList) :
    line = line' := by
  have hdigits : ∀ {m n : Nat}, Nat.toDigits 10 m = Nat.toDigits 10 n → m = n := by
    intro m n hmn
    rw [← Nat.ofDigitChars_ten_toDigits (n := m), hmn, Nat.ofDigitChars_ten_toDigits]
  have hminus : ∀ n, '-' ∉ Nat.toDigits 10 n := not_mem_toDigits (by decide)
  cases line with
  | ofNat m =>
    cases line' with
    | ofNat n =>
      rw [toList_ofNat, toList_ofNat] at h
      exact congrArg _ (hdigits h)
    | negSucc n =>
      rw [toList_ofNat, toList_negSucc] at h
      exact absurd (h ▸ List.mem_cons_self) (hminus m)
  | negSucc m =>
    cases line' with
    | ofNat n =>
      rw [toList_ofNat, toList_negSucc] at h
      exact absurd (h ▸ List.mem_cons_self) (hminus n)
    | negSucc n =>
      rw [toList_negSucc, toList_negSucc] at h
      exact congrArg _ (Nat.succ.inj (hdigits (List.cons.inj h).2))

/-- Texts with a colon between them can be told apart at the last colon. -/
theorem eq_of_append_colon_eq {l l' r r' : List Char} (h : l ++ ':' :: r = l' ++ ':' :: r')
    (hr : ':' ∉ r) (hr' : ':' ∉ r') : l = l' ∧ r = r' := by
  have hreverse : r.reverse ++ ':' :: l.reverse = r'.reverse ++ ':' :: l'.reverse := by
    simpa using congrArg List.reverse h
  rw [← List.mem_reverse] at hr hr'
  have hlast : r.reverse = r'.reverse := by
    have htake := congrArg (List.takeWhile (· != ':')) hreverse
    rwa [Text.takeWhile_bne_append hr, Text.takeWhile_bne_append hr'] at htake
  have hrest : ':' :: l.reverse = ':' :: l'.reverse := by
    have hdrop := congrArg (List.dropWhile (· != ':')) hreverse
    rwa [Text.dropWhile_bne_append hr, Text.dropWhile_bne_append hr'] at hdrop
  exact ⟨List.reverse_inj.mp (List.cons.inj hrest).2, List.reverse_inj.mp hlast⟩

theorem toList_symbolId (file name : String) (line : Int) :
    (symbolId file name line).toList =
      (file.toList ++ ':' :: name.toList) ++ ':' :: (toString line).toList := by
  simp [symbolId]

variable {file file' name name' : String} {line line' : Int}

/-- Behind the last colon of an id stands the line. -/
theorem eq_of_symbolId_eq (h : symbolId file name line = symbolId file' name' line') :
    file.toList ++ ':' :: name.toList = file'.toList ++ ':' :: name'.toList ∧ line = line' := by
  have hlists := congrArg String.toList h
  rw [toList_symbolId, toList_symbolId] at hlists
  obtain ⟨hfront, hline⟩ :=
    eq_of_append_colon_eq hlists (colon_not_mem_line line) (colon_not_mem_line line')
  exact ⟨hfront, line_inj hline⟩

/-- An id with a name without colons stands for one file, one name and one line. -/
theorem symbolId_inj (hname : ':' ∉ name.toList) (hname' : ':' ∉ name'.toList) :
    symbolId file name line = symbolId file' name' line' ↔
      file = file' ∧ name = name' ∧ line = line' := by
  constructor
  · intro h
    obtain ⟨hfront, hline⟩ := eq_of_symbolId_eq h
    obtain ⟨hfile, hnames⟩ := eq_of_append_colon_eq hfront hname hname'
    exact ⟨String.toList_inj.mp hfile, String.toList_inj.mp hnames, hline⟩
  · rintro ⟨rfl, rfl, rfl⟩
    rfl

end CodeAtlas
