import CodeAtlas.Text.Utf8

/-!
# Texts of ASCII characters

An ASCII text has one byte for every character, and its bytes read back as the
text. So a length counted in characters is one counted in bytes. Any other text
has more bytes than characters.
-/

namespace CodeAtlas.Text

def Ascii (cs : List Char) : Prop := ∀ c ∈ cs, c.toNat < 128

instance (cs : List Char) : Decidable (Ascii cs) := List.decidableBAll _ cs

theorem Ascii.append {a b : List Char} (ha : Ascii a) (hb : Ascii b) : Ascii (a ++ b) := by
  intro c hc
  rcases List.mem_append.mp hc with hc | hc
  · exact ha c hc
  · exact hb c hc

theorem Ascii.cons {c : Char} {cs : List Char} (hc : c.toNat < 128) (hcs : Ascii cs) :
    Ascii (c :: cs) := by
  intro d hd
  rcases List.mem_cons.mp hd with rfl | hd
  · exact hc
  · exact hcs d hd

theorem Ascii.tail {c : Char} {cs : List Char} (h : Ascii (c :: cs)) : Ascii cs :=
  fun d hd => h d (List.mem_cons_of_mem _ hd)

namespace Utf8

theorem encodeChar_of_lt {c : Char} (h : c.toNat < 128) : encodeChar c = [c.toNat.toUInt8] := by
  rw [encodeChar, if_pos h]

theorem toNat_toUInt8 {n : Nat} (h : n < 128) : n.toUInt8.toNat = n :=
  UInt8.toNat_ofNat_of_lt (Nat.lt_trans h (by decide))

theorem encode_of_ascii {cs : List Char} (h : Ascii cs) :
    encode cs = cs.map fun c => c.toNat.toUInt8 := by
  induction cs with
  | nil => rfl
  | cons c cs ih =>
    have hrest : cs.flatMap encodeChar = _ := ih h.tail
    rw [encode, List.flatMap_cons, encodeChar_of_lt (h c List.mem_cons_self), hrest]
    rfl

theorem length_encode {cs : List Char} (h : Ascii cs) : (encode cs).length = cs.length := by
  rw [encode_of_ascii h, List.length_map]

theorem not_mem_encode {cs : List Char} (h : Ascii cs) {c : Char} (hc : c ∉ cs)
    (hlt : c.toNat < 128) : c.toNat.toUInt8 ∉ encode cs := by
  rw [encode_of_ascii h]
  intro hmem
  obtain ⟨d, hd, heq⟩ := List.mem_map.mp hmem
  have hnat : d.toNat = c.toNat := by
    rw [← toNat_toUInt8 (h d hd), heq, toNat_toUInt8 hlt]
  exact hc (Char.toNat_inj.mp hnat ▸ hd)

theorem encode_append (a b : List Char) : encode (a ++ b) = encode a ++ encode b :=
  List.flatMap_append

theorem first_of_lt {n : Nat} (h : n < 128) (bs : List UInt8) :
    first n.toUInt8 bs = .char (Char.ofNat n) := by
  simp only [first, opening?, toNat_toUInt8 h, if_pos h, continuation]

theorem segments_encode {cs : List Char} (h : Ascii cs) : segments (encode cs) = cs.map .char := by
  induction cs with
  | nil => rfl
  | cons c cs ih =>
    have hc := h c List.mem_cons_self
    have hrest := ih h.tail
    rw [encode_of_ascii h.tail] at hrest
    rw [encode_of_ascii h, List.map_cons, segments, segmentsFrom, first_of_lt hc,
      Char.ofNat_toNat, Segment.length, encodeChar_of_lt hc]
    exact congrArg _ hrest

theorem go_map_char (bs : List UInt8) (cs : List Char) (pos : Nat) (acc : List Char) :
    decode.go bs (cs.map .char) pos acc = .ok (acc.reverse ++ cs) := by
  induction cs generalizing pos acc with
  | nil => simp [decode.go]
  | cons c cs ih => simp [decode.go, ih]

theorem decode_encode {cs : List Char} (h : Ascii cs) : decode (encode cs) = .ok cs := by
  rw [decode, segments_encode h, go_map_char]
  rfl

theorem length_segmentsFrom_le (skip : Nat) (bs : List UInt8) :
    (segmentsFrom skip bs).length ≤ bs.length := by
  fun_induction segmentsFrom skip bs with
  | case1 => exact Nat.le_refl 0
  | case2 b bs ih => exact Nat.succ_le_succ ih
  | case3 skip b bs ih => exact Nat.le_succ_of_le ih

theorem length_of_go {bs : List UInt8} {segs : List Segment} {pos : Nat} {acc text : List Char}
    (h : decode.go bs segs pos acc = .ok text) : text.length = segs.length + acc.length := by
  fun_induction decode.go bs segs pos acc with
  | case1 pos acc =>
    cases h
    rw [List.length_reverse, List.length_nil, Nat.zero_add]
  | case2 c segs pos acc ih =>
    rw [ih h, List.length_cons, List.length_cons]
    omega
  | case3 => contradiction

/-- No text has more characters than bytes. -/
theorem length_le_of_decode {bs : List UInt8} {text : List Char} (h : decode bs = .ok text) :
    text.length ≤ bs.length := by
  rw [length_of_go h]
  exact length_segmentsFrom_le 0 bs

end Utf8

end CodeAtlas.Text
