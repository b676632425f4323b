import CodeAtlas.Proofs.Ascii
import CodeAtlas.Proofs.Table
import CodeAtlas.Proofs.Value.Decimal
import CodeAtlas.Value.Json.Printer

/-!
# Values written and read back

A value without fractions, whose records name no field twice, is read back from its
compact form as it was. Its integers must not have too many digits and its brackets
must not be nested deeper than the reader allows. A string is taken back character
by character, each from its own escape; a list and a record item by item, where the
text of every item pays for the fuel that reading it takes.
-/

namespace CodeAtlas.Value.Json

theorem hexValue?_hexDigit {d : Nat} (h : d < 16) : hexValue? (Text.hexDigit d) = some d := by
  have hall : ∀ d < 16, hexValue? (Text.hexDigit d) = some d := by decide +kernel
  exact hall d h

theorem hex_four (n : Nat) :
    Text.hex 4 n = [Text.hexDigit (n / 16 / 16 / 16 % 16), Text.hexDigit (n / 16 / 16 % 16),
      Text.hexDigit (n / 16 % 16), Text.hexDigit (n % 16)] := rfl

theorem unit?_hexDigit {n : Nat} (h : n < 0x10000) :
    unit? (Text.hexDigit (n / 16 / 16 / 16 % 16)) (Text.hexDigit (n / 16 / 16 % 16))
      (Text.hexDigit (n / 16 % 16)) (Text.hexDigit (n % 16)) = some n := by
  have hdigit : ∀ m, hexValue? (Text.hexDigit (m % 16)) = some (m % 16) :=
    fun m => hexValue?_hexDigit (Nat.mod_lt m (by decide))
  simp only [unit?, hdigit, Option.bind_eq_bind, Option.bind_some, Option.pure_def,
    Option.some.injEq]
  omega

/-- A code unit that is no half of a pair stands for its character. -/
theorem unitEscape?_single {n : Nat} (h : n < 0x10000) (hhalf : n < 0xd800 ∨ 0xdfff < n)
    (e : Char) (rest : List Char) :
    unitEscape? (Text.hex 4 n ++ e :: rest) = .char (Char.ofNat n) 4 := by
  have hhigh : ¬ (0xd800 ≤ n ∧ n ≤ 0xdbff) := by omega
  have halone : ¬ (0xd800 ≤ n ∧ n ≤ 0xdfff) := by omega
  rw [hex_four]
  simp only [List.cons_append, List.nil_append, unitEscape?, unit?_hexDigit h, if_neg hhigh,
    unitChar, if_neg halone]

/-- Two halves that make a pair stand for its character together. -/
theorem unitEscape?_pair {n : Nat} (h : n < 0x100000) (e : Char) (rest : List Char) :
    unitEscape? (Text.hex 4 (0xd800 + n / 0x400) ++
        (unitEscape (0xdc00 + n % 0x400) ++ e :: rest)) =
      .char (Char.ofNat (0x10000 + n)) 10 := by
  have hhigh : 0xd800 ≤ 0xd800 + n / 0x400 ∧ 0xd800 + n / 0x400 ≤ 0xdbff := by omega
  have hpair : pairChar? (0xd800 + n / 0x400) (0xdc00 + n % 0x400) =
      some (Char.ofNat (0x10000 + n)) := by
    have hsum : 0x10000 + (0xd800 + n / 0x400 - 0xd800) * 0x400 + (0xdc00 + n % 0x400 - 0xdc00) =
        0x10000 + n := by omega
    rw [pairChar?, if_pos (by omega), hsum]
  rw [unitEscape, hex_four, hex_four]
  simp only [List.cons_append, List.nil_append, unitEscape?,
    unit?_hexDigit (n := 0xd800 + n / 0x400) (by omega),
    unit?_hexDigit (n := 0xdc00 + n % 0x400) (by omega), if_pos hhigh, hpair]

theorem stringRest_skip (opened : Nat) (passed tail acc : List Char) :
    stringRest opened passed.length (passed ++ tail) acc = stringRest opened 0 tail acc := by
  induction passed with
  | nil => rfl
  | cons c passed ih => exact ih

theorem stringRest_unitEscape {opened : Nat} {passed tail acc : List Char} {c : Char}
    (h : unitEscape? (passed ++ tail) = .char c passed.length) :
    stringRest opened 0 ('\\' :: 'u' :: (passed ++ tail)) acc =
      stringRest opened 0 tail (c :: acc) := by
  rw [stringRest]
  simp only [h]
  exact stringRest_skip opened ('u' :: passed) tail (c :: acc)

/-- The four ways in which a character is written. -/
inductive Escape : Char → List Char → Prop
  | letter {c e : Char} (h : simpleEscape? e = some c) : Escape c ['\\', e]
  | itself {c : Char} (hquote : c ≠ '"') (hslash : c ≠ '\\') (hlow : 0x20 ≤ c.toNat)
    (htop : c.toNat ≤ 0x7e) : Escape c [c]
  | unit {c : Char} (h : c.toNat < 0x10000) : Escape c (unitEscape c.toNat)
  | pair {c : Char} {n : Nat} (h : c.toNat = 0x10000 + n) (hlt : n < 0x100000) :
    Escape c (unitEscape (0xd800 + n / 0x400) ++ unitEscape (0xdc00 + n % 0x400))

theorem toNat_valid (c : Char) : c.toNat < 0xd800 ∨ 0xdfff < c.toNat ∧ c.toNat < 0x110000 := c.valid

theorem escape_escapeChar (c : Char) : Escape c (escapeChar c) := by
  unfold escapeChar
  by_cases hquote : c = '"'
  · rw [if_pos hquote]
    exact .letter (by rw [hquote]; rfl)
  rw [if_neg hquote]
  by_cases hslash : c = '\\'
  · rw [if_pos hslash]
    exact .letter (by rw [hslash]; rfl)
  rw [if_neg hslash]
  by_cases hfeed : c = '\n'
  · rw [if_pos hfeed]
    exact .letter (by rw [hfeed]; rfl)
  rw [if_neg hfeed]
  by_cases hreturn : c = '\r'
  · rw [if_pos hreturn]
    exact .letter (by rw [hreturn]; rfl)
  rw [if_neg hreturn]
  by_cases htab : c = '\t'
  · rw [if_pos htab]
    exact .letter (by rw [htab]; rfl)
  rw [if_neg htab]
  by_cases hform : c.toNat = 0x0c
  · rw [if_pos hform]
    exact .letter (by rw [← Char.ofNat_toNat c, hform]; rfl)
  rw [if_neg hform]
  by_cases hback : c.toNat = 0x08
  · rw [if_pos hback]
    exact .letter (by rw [← Char.ofNat_toNat c, hback]; rfl)
  rw [if_neg hback]
  by_cases hplain : 0x20 ≤ c.toNat ∧ c.toNat ≤ 0x7e
  · rw [if_pos hplain]
    exact .itself hquote hslash hplain.1 hplain.2
  rw [if_neg hplain]
  by_cases hunit : c.toNat < 0x10000
  · rw [if_pos hunit]
    exact .unit hunit
  rw [if_neg hunit]
  have hvalid := toNat_valid c
  exact .pair (by omega) (by omega)

/-- An escape is read as the character it was written for, whatever follows it. -/
theorem Escape.stringRest {c : Char} {written : List Char} (h : Escape c written) (opened : Nat)
    {tail : List Char} (htail : tail ≠ []) (acc : List Char) :
    stringRest opened 0 (written ++ tail) acc = stringRest opened 0 tail (c :: acc) := by
  obtain ⟨e, rest, rfl⟩ := List.exists_cons_of_ne_nil htail
  cases h with
  | letter h =>
    unfold simpleEscape? at h
    split at h <;> cases h <;> rfl
  | itself hquote hslash hlow htop =>
    rw [List.singleton_append, Json.stringRest]
    · rw [if_neg (by omega)]
    · exact hquote
    · exact hslash
  | unit h =>
    have hvalid := toNat_valid c
    have hread := unitEscape?_single h (by omega) e rest
    rw [Char.ofNat_toNat] at hread
    exact stringRest_unitEscape hread
  | @pair n hn hlt =>
    have hread := unitEscape?_pair hlt e rest
    rw [← hn, Char.ofNat_toNat, ← List.append_assoc] at hread
    rw [unitEscape, List.append_assoc, List.cons_append, List.cons_append, ← List.append_assoc]
    exact stringRest_unitEscape hread

theorem stringRest_flatMap (opened : Nat) (cs tail acc : List Char) :
    stringRest opened 0 (cs.flatMap escapeChar ++ '"' :: tail) acc =
      .ok (acc.reverse ++ cs, tail) := by
  induction cs generalizing acc with
  | nil => simp [stringRest]
  | cons c cs ih =>
    rw [List.flatMap_cons, List.append_assoc,
      (escape_escapeChar c).stringRest opened (by simp) acc, ih, List.reverse_cons,
      List.append_assoc, List.singleton_append]

/-- Values of whole numbers, texts, truth values and null, in lists and in records that name no
field twice. -/
inductive Plain : Value → Prop
  | null : Plain .null
  | boolean (b : Bool) : Plain (.boolean b)
  | integer (n : Int) : Plain (.integer n)
  | text (s : String) : Plain (.text s)
  | list {items : List Value} (h : ∀ v ∈ items, Plain v) : Plain (.list items)
  | record {fields : List (String × Value)} (hkeys : (fields.map Prod.fst).Nodup)
    (h : ∀ f ∈ fields, Plain f.2) : Plain (.record fields)

/-- Plain values within the limits of the reader: with at most so many brackets around anything in
them, and with integers that can be written. -/
inductive Fits : (levels : Nat) → Value → Prop
  | null {levels : Nat} : Fits levels .null
  | boolean {levels : Nat} (b : Bool) : Fits levels (.boolean b)
  | integer {levels : Nat} {n : Int} (h : Text.isWritable n = true) : Fits levels (.integer n)
  | text {levels : Nat} (s : String) : Fits levels (.text s)
  | list {levels : Nat} {items : List Value} (h : ∀ v ∈ items, Fits levels v) :
    Fits (levels + 1) (.list items)
  | record {levels : Nat} {fields : List (String × Value)} (hkeys : (fields.map Prod.fst).Nodup)
    (h : ∀ f ∈ fields, Fits levels f.2) : Fits (levels + 1) (.record fields)

theorem Fits.plain {levels : Nat} {v : Value} (h : Fits levels v) : Plain v := by
  induction h with
  | null => exact .null
  | boolean b => exact .boolean b
  | integer => exact .integer _
  | text s => exact .text s
  | list _ ih => exact .list ih
  | record hkeys _ ih => exact .record hkeys ih

theorem integer_ofNat (n : Nat) : integer (n : Int) = Nat.toDigits 10 n := Text.toList_toString n

theorem integer_negSucc (n : Nat) :
    integer (Int.negSucc n) = '-' :: Nat.toDigits 10 (n + 1) := by
  have hstring : toString (Int.negSucc n) = "-" ++ toString (n + 1) := rfl
  rw [integer, hstring, String.toList_append, Text.toList_toString]
  rfl

theorem exists_integer_eq_cons (n : Int) :
    ∃ c cs, integer n = c :: cs ∧ (c = '-' ∨ 48 ≤ c.toNat ∧ c.toNat ≤ 57) := by
  cases n with
  | ofNat n =>
    obtain ⟨c, cs, hcs, hc⟩ := Text.exists_toDigits_eq_cons n
    exact ⟨c, cs, (integer_ofNat n).trans hcs, .inr hc⟩
  | negSucc n => exact ⟨'-', _, integer_negSucc n, .inl rfl⟩

theorem name?_of_digit {c : Char} (h : 48 ≤ c.toNat ∧ c.toNat ≤ 57) (cs : List Char) :
    name? (c :: cs) = none ∧ name? ('-' :: c :: cs) = none := by
  have hdigit : c.toNat = 48 ∨ c.toNat = 49 ∨ c.toNat = 50 ∨ c.toNat = 51 ∨ c.toNat = 52 ∨
      c.toNat = 53 ∨ c.toNat = 54 ∨ c.toNat = 55 ∨ c.toNat = 56 ∨ c.toNat = 57 := by omega
  rw [← Char.ofNat_toNat c]
  rcases hdigit with hc | hc | hc | hc | hc | hc | hc | hc | hc | hc <;> rw [hc] <;>
    exact ⟨rfl, rfl⟩

theorem scalar_integer {n : Int} (hn : Text.isWritable n = true) {rest : List Char}
    (hrest : Stops rest) : scalar (integer n ++ rest) = .ok (.integer n, rest) := by
  cases n with
  | ofNat n =>
    have hnumber := unsigned_toDigits false hn hrest
    rw [Int.ofNat_eq_natCast, integer_ofNat]
    obtain ⟨c, cs, hcs, hc⟩ := Text.exists_toDigits_eq_cons n
    rw [hcs, List.cons_append] at hnumber ⊢
    have hsign : number (c :: (cs ++ rest)) = unsigned false (c :: (cs ++ rest)) := by
      rw [number]
      rintro rest ⟨⟩
      revert hc
      decide
    rw [scalar, (name?_of_digit hc _).1, hsign, hnumber]
    rfl
  | negSucc n =>
    have hnumber := unsigned_toDigits true (n := n + 1) hn hrest
    rw [integer_negSucc, List.cons_append]
    obtain ⟨c, cs, hcs, hc⟩ := Text.exists_toDigits_eq_cons (n + 1)
    rw [hcs, List.cons_append] at hnumber ⊢
    rw [scalar, (name?_of_digit hc _).2, number, hnumber]
    rfl

theorem value_of_scalar {c : Char} (hquote : c ≠ '"') (hlist : c ≠ '[') (hrecord : c ≠ '\x7b')
    (fuel levels : Nat) (cs : List Char) :
    value (fuel + 1) levels (c :: cs) = scalar (c :: cs) := by
  rw [value]
  · intro rest heq
    exact hquote (List.cons.inj heq).1
  · intro rest heq
    exact hlist (List.cons.inj heq).1
  · intro rest heq
    exact hrecord (List.cons.inj heq).1

/-- The first character of a value: no blank, and no bracket that would close an empty list. -/
theorem Plain.exists_compact_eq_cons {v : Value} (h : Plain v) :
    ∃ c cs, compact v = c :: cs ∧ isBlank c = false ∧ c ≠ ']' := by
  cases h with
  | null => exact ⟨'n', _, rfl, by decide, by decide⟩
  | boolean b => cases b <;> exact ⟨_, _, rfl, by decide, by decide⟩
  | integer n =>
    obtain ⟨c, cs, hcs, hc⟩ := exists_integer_eq_cons n
    refine ⟨c, cs, hcs, ?_, ?_⟩
    · rcases hc with rfl | hc
      · decide
      · simp only [isBlank, Bool.or_eq_false_iff, beq_eq_false_iff_ne]
        refine ⟨⟨⟨?_, ?_⟩, ?_⟩, ?_⟩ <;>
          · rintro rfl
            exact absurd hc.1 (by decide)
    · rintro rfl
      revert hc
      decide
  | text s => exact ⟨'"', _, rfl, by decide, by decide⟩
  | list h => exact ⟨'[', _, rfl, by decide, by decide⟩
  | record hkeys h => exact ⟨'\x7b', _, rfl, by decide, by decide⟩

/-- The value is read from its compact form, with fuel for twice the length of that form. -/
def ReadsBack (levels : Nat) (v : Value) : Prop :=
  ∀ (fuel : Nat) (rest : List Char), 2 * (compact v).length ≤ fuel → Stops rest →
    value fuel levels (compact v ++ rest) = .ok (v, rest)

theorem skipBlanks_cons {c : Char} (h : isBlank c = false) (cs : List Char) :
    skipBlanks (c :: cs) = c :: cs := List.dropWhile_cons_of_neg (by simp [h])

theorem Plain.skipBlanks_compact {v : Value} (h : Plain v) (rest : List Char) :
    skipBlanks (compact v ++ rest) = compact v ++ rest := by
  obtain ⟨c, cs, hcs, hblank, -⟩ := h.exists_compact_eq_cons
  rw [hcs, List.cons_append, skipBlanks_cons hblank]

theorem stops_compactMoreItems (vs : List Value) (rest : List Char) :
    Stops (compactMoreItems vs ++ ']' :: rest) := by
  intro c hc
  cases vs with
  | nil => exact .inr (.inl (Option.some.inj hc).symm)
  | cons v vs => exact .inl (Option.some.inj hc).symm

/-- The items behind an opening bracket, one by one: `acc` are those that were read before. -/
theorem items_compact {levels : Nat} {v : Value} {vs : List Value}
    (hplain : ∀ w ∈ v :: vs, Plain w) (hread : ∀ w ∈ v :: vs, ReadsBack levels w) (fuel : Nat)
    (rest : List Char) (acc : List Value)
    (hfuel : 2 * (compactItems (v :: vs)).length + 1 ≤ fuel) :
    items fuel levels (compactItems (v :: vs) ++ ']' :: rest) acc =
      .ok (.list (acc.reverse ++ v :: vs), rest) := by
  induction vs generalizing v fuel acc with
  | nil =>
    obtain ⟨fuel, rfl⟩ : ∃ f, fuel = f + 1 := ⟨fuel - 1, by omega⟩
    have hfirst := hread v List.mem_cons_self fuel (']' :: rest)
      (by simp only [compactItems, compactMoreItems, List.append_nil] at hfuel; omega)
      (stops_compactMoreItems [] rest)
    rw [compactItems, compactMoreItems, List.append_nil, items, hfirst]
    simp only [skipBlanks_cons (c := ']') (by decide), List.reverse_cons]
  | cons w vs ih =>
    obtain ⟨fuel, rfl⟩ : ∃ f, fuel = f + 1 := ⟨fuel - 1, by omega⟩
    -- the comma pays for the fuel that the next item takes
    have hlength : (compactItems (v :: w :: vs)).length =
        (compact v).length + 1 + (compactItems (w :: vs)).length := by
      simp only [compactItems, compactMoreItems, List.length_append, List.length_cons]
      omega
    have hfirst := hread v List.mem_cons_self fuel (compactMoreItems (w :: vs) ++ ']' :: rest)
      (by omega) (stops_compactMoreItems (w :: vs) rest)
    have hmore := ih (v := w) (fun u hu => hplain u (List.mem_cons_of_mem _ hu))
      (fun u hu => hread u (List.mem_cons_of_mem _ hu)) fuel (v :: acc) (by omega)
    have hskip : skipBlanks (compactItems (w :: vs) ++ ']' :: rest) =
        compactItems (w :: vs) ++ ']' :: rest := by
      rw [compactItems, List.append_assoc]
      exact (hplain w (by simp)).skipBlanks_compact _
    rw [compactItems, List.append_assoc, items, hfirst]
    simp only [compactMoreItems, List.cons_append, skipBlanks_cons (c := ',') (by decide)]
    rw [← compactItems, hskip, hmore, List.reverse_cons, List.append_assoc, List.singleton_append]

theorem key_not_mem_of_nodup {f : String × Value} {fs acc : List (String × Value)}
    (h : ((acc ++ f :: fs).map Prod.fst).Nodup) : f.1 ∉ acc.map Prod.fst := by
  rw [List.map_append, List.map_cons, List.nodup_append] at h
  intro hmem
  exact h.2.2 f.1 hmem f.1 List.mem_cons_self rfl

theorem stops_compactMoreFields (fs : List (String × Value)) (rest : List Char) :
    Stops (compactMoreFields fs ++ '\x7d' :: rest) := by
  intro c hc
  cases fs with
  | nil => exact .inr (.inr (Option.some.inj hc).symm)
  | cons f fs => exact .inl (Option.some.inj hc).symm

/-- What follows a field decides how reading goes on. -/
def behindField (fuel levels : Nat) (fields : List (String × Value)) (after : List Char) :
    Except Fault (Value × List Char) :=
  match skipBlanks after with
  | '\x7d' :: rest => .ok (.record fields, rest)
  | ',' :: rest => members fuel levels (skipBlanks rest) fields
  | rest => .error ⟨.comma, rest.length⟩

theorem members_field {levels : Nat} {v : Value} (hplain : Plain v) (hread : ReadsBack levels v)
    (fuel : Nat) (hfuel : 2 * (compact v).length ≤ fuel) {after : List Char}
    (hafter : Stops after) (key : String) (acc : List (String × Value)) :
    members (fuel + 1) levels (string key.toList ++ ':' :: (compact v ++ after)) acc =
      behindField fuel levels (Table.putPair key v acc) after := by
  rw [string, List.cons_append, List.cons_append, List.append_assoc, List.singleton_append, members,
    stringRest_flatMap]
  simp only [List.reverse_nil, List.nil_append, skipBlanks_cons (c := ':') (by decide),
    hplain.skipBlanks_compact, hread fuel after hfuel hafter, String.ofList_toList]
  rfl

/-- The fields behind an opening brace, one by one: `acc` are those that were read before. Because
no key comes twice, each field goes to the end. -/
theorem members_compact {levels : Nat} {f : String × Value} {fs : List (String × Value)}
    (hplain : ∀ g ∈ f :: fs, Plain g.2) (hread : ∀ g ∈ f :: fs, ReadsBack levels g.2)
    (acc : List (String × Value)) (hkeys : ((acc ++ f :: fs).map Prod.fst).Nodup) (fuel : Nat)
    (rest : List Char)
    (hfuel : 2 * (compactFields (f :: fs)).length + 1 ≤ fuel) :
    members fuel levels (compactFields (f :: fs) ++ '\x7d' :: rest) acc =
      .ok (.record (acc ++ f :: fs), rest) := by
  induction fs generalizing f fuel acc with
  | nil =>
    obtain ⟨fuel, rfl⟩ : ∃ n, fuel = n + 1 := ⟨fuel - 1, by omega⟩
    have hnew := key_not_mem_of_nodup hkeys
    have hlength : (compact f.2).length ≤ (compactFields [f]).length := by
      simp only [compactFields, List.length_append, List.length_cons]
      omega
    have hfield := members_field (hplain f List.mem_cons_self) (hread f List.mem_cons_self)
      fuel (by omega) (stops_compactMoreFields [] rest) f.1 acc
    rw [Table.putPair_of_not_mem _ hnew] at hfield
    rw [compactFields, List.append_assoc, List.append_assoc, List.cons_append, hfield]
    rfl
  | cons g fs ih =>
    obtain ⟨fuel, rfl⟩ : ∃ n, fuel = n + 1 := ⟨fuel - 1, by omega⟩
    have hnew := key_not_mem_of_nodup hkeys
    have hlength : (compactFields (f :: g :: fs)).length =
        (string f.1.toList).length + 1 + (compact f.2).length + 1 +
          (compactFields (g :: fs)).length := by
      simp only [compactFields, compactMoreFields, List.length_append, List.length_cons]
      omega
    have hfield := members_field (hplain f List.mem_cons_self) (hread f List.mem_cons_self)
      fuel (by omega) (stops_compactMoreFields (g :: fs) rest) f.1 acc
    have hmore := ih (f := g) (fun h hh => hplain h (List.mem_cons_of_mem _ hh))
      (fun h hh => hread h (List.mem_cons_of_mem _ hh)) (acc ++ [f]) (by simpa using hkeys) fuel
      (by omega)
    have hskip : skipBlanks (compactFields (g :: fs) ++ '\x7d' :: rest) =
        compactFields (g :: fs) ++ '\x7d' :: rest := by
      rw [compactFields, string, List.cons_append, List.cons_append, List.cons_append]
      exact skipBlanks_cons (by decide) _
    have hcomma : behindField fuel levels (acc ++ [f])
        (compactMoreFields (g :: fs) ++ '\x7d' :: rest) =
          members fuel levels (skipBlanks (compactFields (g :: fs) ++ '\x7d' :: rest))
            (acc ++ [f]) := rfl
    rw [compactFields, List.append_assoc, List.append_assoc, List.cons_append, hfield,
      Table.putPair_of_not_mem _ hnew, hcomma, hskip, hmore, List.append_assoc,
      List.singleton_append]

theorem ascii_unitEscape (n : Nat) : Text.Ascii (unitEscape n) := by
  have hdigit : ∀ d < 16, (Text.hexDigit d).toNat < 128 := by decide +kernel
  intro c hc
  simp only [unitEscape, hex_four, List.mem_cons, List.not_mem_nil, or_false] at hc
  rcases hc with rfl | rfl | rfl | rfl | rfl | rfl
  · decide
  · decide
  all_goals exact hdigit _ (Nat.mod_lt _ (by decide))

theorem Escape.ascii {c : Char} {written : List Char} (h : Escape c written) :
    Text.Ascii written := by
  cases h with
  | letter h =>
    unfold simpleEscape? at h
    split at h <;> cases h <;> decide
  | itself _ _ _ htop => exact .cons (by omega) (by rintro c ⟨⟩)
  | unit => exact ascii_unitEscape _
  | pair => exact (ascii_unitEscape _).append (ascii_unitEscape _)

theorem ascii_string (cs : List Char) : Text.Ascii (string cs) := by
  have hbody : Text.Ascii (cs.flatMap escapeChar) := by
    intro c hc
    obtain ⟨d, -, hd⟩ := List.mem_flatMap.mp hc
    exact (escape_escapeChar d).ascii c hd
  exact .append (.cons (by decide) hbody) (by decide)

theorem ascii_integer (n : Int) : Text.Ascii (integer n) := by
  have hdigits : ∀ m, Text.Ascii (Nat.toDigits 10 m) := by
    intro m c hc
    have hrange := Text.toNat_of_mem_toDigits hc
    omega
  cases n with
  | ofNat n =>
    rw [Int.ofNat_eq_natCast, integer_ofNat]
    exact hdigits n
  | negSucc n =>
    rw [integer_negSucc]
    exact .cons (by decide) (hdigits _)

theorem ascii_compactMoreItems {vs : List Value} (h : ∀ v ∈ vs, Text.Ascii (compact v)) :
    Text.Ascii (compactMoreItems vs) := by
  induction vs with
  | nil => rintro c ⟨⟩
  | cons v vs ih =>
    rw [compactMoreItems]
    refine .append (.cons (by decide) (h v List.mem_cons_self)) (ih ?_)
    exact fun w hw => h w (List.mem_cons_of_mem _ hw)

theorem ascii_compactMoreFields {fs : List (String × Value)}
    (h : ∀ f ∈ fs, Text.Ascii (compact f.2)) : Text.Ascii (compactMoreFields fs) := by
  induction fs with
  | nil => rintro c ⟨⟩
  | cons f fs ih =>
    rw [compactMoreFields]
    refine .append (.append (.cons (by decide) (ascii_string _))
      (.cons (by decide) (h f List.mem_cons_self))) (ih ?_)
    exact fun g hg => h g (List.mem_cons_of_mem _ hg)

theorem Plain.ascii_compact {v : Value} (h : Plain v) : Text.Ascii (compact v) := by
  induction h with
  | null => decide
  | boolean b => cases b <;> decide
  | integer n => exact ascii_integer n
  | text s => exact ascii_string s.toList
  | @list items h ih =>
    cases items with
    | nil => decide
    | cons v vs =>
      have hmore := ascii_compactMoreItems fun w hw => ih w (List.mem_cons_of_mem _ hw)
      rw [compact, compactItems]
      exact .append (.cons (by decide) (.append (ih v List.mem_cons_self) hmore)) (by decide)
  | @record fields hkeys h ih =>
    cases fields with
    | nil => decide
    | cons f fs =>
      have hmore := ascii_compactMoreFields fun g hg => ih g (List.mem_cons_of_mem _ hg)
      have hfirst : Text.Ascii (string f.1.toList ++ ':' :: compact f.2) :=
        .append (ascii_string _) (.cons (by decide) (ih f List.mem_cons_self))
      rw [compact, compactFields]
      exact .append (.cons (by decide) (hfirst.append hmore)) (by decide)

theorem value_list {c : Char} (hblank : isBlank c = false) (hne : c ≠ ']') (fuel levels : Nat)
    (cs : List Char) :
    value (fuel + 1) (levels + 1) ('[' :: c :: cs) = items fuel levels (c :: cs) [] := by
  rw [value.eq_def]
  simp only [skipBlanks_cons hblank]
  split
  next => contradiction
  next heq => exact absurd (List.cons.inj heq).1 hne
  next heq _ => cases heq; rfl

theorem readsBack_of_succ {levels : Nat} {v : Value} (hplain : Plain v)
    (h : ∀ (fuel : Nat) (rest : List Char), 2 * (compact v).length ≤ fuel + 1 → Stops rest →
      value (fuel + 1) levels (compact v ++ rest) = .ok (v, rest)) : ReadsBack levels v := by
  intro fuel rest hfuel hrest
  obtain ⟨c, cs, hcs, -⟩ := hplain.exists_compact_eq_cons
  have hpos : 0 < (compact v).length := by simp [hcs]
  obtain ⟨fuel, rfl⟩ : ∃ n, fuel = n + 1 := ⟨fuel - 1, by omega⟩
  exact h fuel rest hfuel hrest

/-- Every value within the limits is read back from its compact form. -/
theorem Fits.readsBack {levels : Nat} {v : Value} (h : Fits levels v) : ReadsBack levels v := by
  have hplain := h.plain
  induction h with
  | null => exact readsBack_of_succ hplain fun _ _ _ _ => rfl
  | boolean b => cases b <;> exact readsBack_of_succ hplain fun _ _ _ _ => rfl
  | @integer levels n hn =>
    apply readsBack_of_succ hplain
    intro fuel rest _ hrest
    have hscalar := scalar_integer hn hrest
    obtain ⟨c, cs, hcs, hc⟩ := exists_integer_eq_cons n
    rw [hcs, List.cons_append] at hscalar
    rw [compact, hcs, List.cons_append, value_of_scalar, hscalar]
    -- neither a sign nor a digit opens a string, a list or a record
    all_goals
      rintro rfl
      revert hc
      decide
  | text s =>
    apply readsBack_of_succ hplain
    intro fuel rest _ _
    rw [compact, string, List.cons_append, List.cons_append, List.append_assoc,
      List.singleton_append, value, stringRest_flatMap]
    simp only [List.reverse_nil, List.nil_append, String.ofList_toList]
  | @list levels items h ih =>
    apply readsBack_of_succ hplain
    intro fuel rest hfuel _
    rw [compact, List.cons_append, List.length_cons, List.length_append] at hfuel
    rw [compact, List.cons_append, List.cons_append, List.append_assoc, List.singleton_append]
    cases items with
    | nil => rfl
    | cons v vs =>
      have hplain : ∀ w ∈ v :: vs, Plain w := fun w hw => (h w hw).plain
      have hread : ∀ w ∈ v :: vs, ReadsBack levels w := fun w hw => ih w hw (hplain w hw)
      have hitems := items_compact hplain hread fuel rest [] (by omega)
      obtain ⟨c, cs, hcs, hblank, hne⟩ := (hplain v List.mem_cons_self).exists_compact_eq_cons
      rw [compactItems, hcs, List.cons_append, List.cons_append] at hitems ⊢
      rw [value_list hblank hne, hitems]
      rfl
  | @record levels fields hkeys h ih =>
    apply readsBack_of_succ hplain
    intro fuel rest hfuel _
    rw [compact, List.cons_append, List.length_cons, List.length_append] at hfuel
    rw [compact, List.cons_append, List.cons_append, List.append_assoc, List.singleton_append]
    cases fields with
    | nil => rfl
    | cons f fs =>
      have hplain : ∀ g ∈ f :: fs, Plain g.2 := fun g hg => (h g hg).plain
      have hread : ∀ g ∈ f :: fs, ReadsBack levels g.2 := fun g hg => ih g hg (hplain g hg)
      have hmembers := members_compact hplain hread [] hkeys fuel rest (by omega)
      exact hmembers

theorem parse_compact {v : Value} (h : Fits nestingLimit v) : parse (compact v) = .ok v := by
  have hread := h.readsBack (2 * (compact v).length + 2) [] (by omega) (by rintro c ⟨⟩)
  obtain ⟨c, cs, hcs, hblank, -⟩ := h.plain.exists_compact_eq_cons
  -- a byte order mark would be refused, but it is not ASCII
  have hmark : c.toNat ≠ 0xfeff := by
    have hlt := h.plain.ascii_compact c (by rw [hcs]; exact List.mem_cons_self)
    omega
  have hskip := h.plain.skipBlanks_compact []
  rw [List.append_nil] at hread hskip
  rw [parse, hcs, parseWithin, if_neg hmark, ← hcs, parseWithin.whole, hskip, hread]
  rfl

end CodeAtlas.Value.Json
