import CodeAtlas.Attribution
import CodeAtlas.Proofs.Ascii
import CodeAtlas.Proofs.Outcome
import CodeAtlas.Proofs.Terraform.Spans
import CodeAtlas.Proofs.Text
import CodeAtlas.Tree.Source

/-!
# Rows and lines

The row of a place is the number of line feeds before it. It is the index of the line
around the place, in the list of lines that everything shares: the rows of syntax
trees, which count bytes, the positions of language servers and the numbers of blocks
all lead to the same line. Only a carriage return at the end of a line is lost in the
list.
-/

namespace CodeAtlas

namespace Text

/-- How many line feeds stand before a place. -/
def rowAt (text : List Char) (place : Nat) : Nat := (text.take place).count '\n'

/-- No line feed stands between two places. -/
def FeedFree (text : List Char) (start stop : Nat) : Prop :=
  ∀ p, start ≤ p → p < stop → text[p]? ≠ some '\n'

/-- A stretch of a text without line feeds that no longer one contains. -/
structure IsLongestLine (text : List Char) (start stop : Nat) : Prop where
  start_le : start ≤ stop
  stop_le : stop ≤ text.length
  free : FeedFree text start stop
  longest : ∀ a b, a ≤ start → stop ≤ b → b ≤ text.length → FeedFree text a b →
    a = start ∧ b = stop

variable {text : List Char} {start stop place : Nat}

theorem IsLongestLine.left (h : IsLongestLine text start stop) :
    start = 0 ∨ text[start - 1]? = some '\n' := by
  by_contra hmiddle
  rw [not_or] at hmiddle
  have hfree : FeedFree text (start - 1) stop := by
    intro p hp hlt
    by_cases hedge : p = start - 1
    · rw [hedge]
      exact hmiddle.2
    · exact h.free p (by omega) hlt
  have hsame := (h.longest (start - 1) stop (by omega) (Nat.le_refl _) h.stop_le hfree).1
  omega

theorem IsLongestLine.right (h : IsLongestLine text start stop) :
    stop = text.length ∨ text[stop]? = some '\n' := by
  by_contra hmiddle
  rw [not_or] at hmiddle
  have hfree : FeedFree text start (stop + 1) := by
    intro p hp hlt
    by_cases hedge : p = stop
    · rw [hedge]
      exact hmiddle.2
    · exact h.free p hp (by omega)
  have hle := h.stop_le
  have hsame := (h.longest start (stop + 1) (Nat.le_refl _) (by omega) (by omega) hfree).2
  omega

theorem isLongestLine_of_bounds (hle : start ≤ stop) (hlength : stop ≤ text.length)
    (hfree : FeedFree text start stop) (hleft : start = 0 ∨ text[start - 1]? = some '\n')
    (hright : stop = text.length ∨ text[stop]? = some '\n') : IsLongestLine text start stop := by
  refine ⟨hle, hlength, hfree, ?_⟩
  intro a b ha hb hblength hlonger
  constructor
  · by_contra hne
    exact hlonger (start - 1) (by omega) (by omega) (hleft.resolve_left (by omega))
  · by_contra hne
    exact hlonger stop (by omega) (by omega) (hright.resolve_left (by omega))

theorem exists_line_start (text : List Char) (place : Nat) :
    ∃ start ≤ place, FeedFree text start place ∧
      (start = 0 ∨ text[start - 1]? = some '\n') := by
  induction place with
  | zero => exact ⟨0, Nat.le_refl 0, fun p _ hlt => absurd hlt (Nat.not_lt_zero p), .inl rfl⟩
  | succ place ih =>
    by_cases hfeed : text[place]? = some '\n'
    · exact ⟨place + 1, Nat.le_refl _, fun p hp hlt => absurd hlt (by omega), .inr hfeed⟩
    · obtain ⟨start, hle, hfree, hleft⟩ := ih
      refine ⟨start, Nat.le_succ_of_le hle, ?_, hleft⟩
      intro p hp hlt
      by_cases hlast : p = place
      · rwa [hlast]
      · exact hfree p hp (by omega)

theorem exists_line_stop (h : place ≤ text.length) :
    ∃ stop, place ≤ stop ∧ stop ≤ text.length ∧ FeedFree text place stop ∧
      (stop = text.length ∨ text[stop]? = some '\n') := by
  induction hleft : text.length - place generalizing place with
  | zero =>
    exact ⟨place, Nat.le_refl _, h, fun p hp hlt => absurd hlt (by omega), .inl (by omega)⟩
  | succ n ih =>
    by_cases hfeed : text[place]? = some '\n'
    · exact ⟨place, Nat.le_refl _, h, fun p hp hlt => absurd hlt (by omega), .inr hfeed⟩
    · obtain ⟨stop, hle, hlength, hfree, hright⟩ := @ih (place + 1) (by omega) (by omega)
      refine ⟨stop, by omega, hlength, ?_, hright⟩
      intro p hp hlt
      by_cases hfirst : p = place
      · rwa [hfirst]
      · exact hfree p (by omega) hlt

theorem exists_longestLine (h : place ≤ text.length) :
    ∃ start stop, IsLongestLine text start stop ∧ start ≤ place ∧ place ≤ stop := by
  obtain ⟨start, hstart, hbefore, hleft⟩ := exists_line_start text place
  obtain ⟨stop, hstop, hlength, hafter, hright⟩ := exists_line_stop h
  refine ⟨start, stop, isLongestLine_of_bounds (by omega) hlength ?_ hleft hright, hstart, hstop⟩
  intro p hp hlt
  by_cases hside : p < place
  · exact hbefore p hp hside
  · exact hafter p (by omega) hlt

theorem FeedFree.not_mem (h : FeedFree text start stop) :
    '\n' ∉ (text.drop start).take (stop - start) := by
  intro hmem
  obtain ⟨i, hi⟩ := List.mem_iff_getElem?.mp hmem
  rw [List.getElem?_take] at hi
  split at hi
  next hlt =>
    rw [List.getElem?_drop] at hi
    exact h (start + i) (by omega) (by omega) hi
  next => cases hi

theorem FeedFree.rowAt_eq (h : FeedFree text start stop) (hle : start ≤ stop) :
    rowAt text stop = rowAt text start := by
  obtain ⟨k, rfl⟩ := Nat.exists_eq_add_of_le hle
  have hmem := h.not_mem
  rw [Nat.add_sub_cancel_left] at hmem
  rw [rowAt, List.take_add, List.count_append, List.count_eq_zero.mpr hmem]
  rfl

/-- What stands before the first line feed is the first line, unless the text is empty. -/
theorem head?_sourceLines {line rest : List Char} (hline : '\n' ∉ line)
    (hrest : rest = [] ∨ rest.head? = some '\n') (hne : line ++ rest ≠ []) :
    (sourceLines (line ++ rest)).head? = some (dropReturn line) := by
  rcases hrest with rfl | hhead
  · rw [List.append_nil] at hne ⊢
    have hlast : (pieces '\n' line).getLast? ≠ some [] := by
      rw [pieces_of_not_mem hline]
      simpa using hne
    rw [sourceLines_of_getLast? hlast, pieces_of_not_mem hline]
    rfl
  · obtain ⟨after, rfl⟩ := List.head?_eq_some_iff.mp hhead
    rw [List.append_cons, sourceLines_append (.inr List.getLast?_concat),
      sourceLines_append_newline, pieces_of_not_mem hline]
    rfl

/-- The row of a place is the index of the line around it. -/
theorem IsLongestLine.getElem?_sourceLines (h : IsLongestLine text start stop)
    (hstart : start ≤ place) (hstop : place ≤ stop) (hplace : place < text.length) :
    (sourceLines text)[rowAt text place]? = some (dropReturn (between text start stop)) := by
  have hrow : rowAt text place = (text.take start).count '\n' := by
    have hfree : FeedFree text start place := fun p hp hlt => h.free p hp (by omega)
    exact hfree.rowAt_eq hstart
  have hfront : text.take start = [] ∨ (text.take start).getLast? = some '\n' := by
    rcases h.left with hzero | hfeed
    · exact .inl (by rw [hzero, List.take_zero])
    · by_cases hzero : start = 0
      · exact .inl (by rw [hzero, List.take_zero])
      · exact .inr (by rw [List.getLast?_take, if_neg hzero, hfeed, Option.some_or])
  have hback : text.drop stop = [] ∨ (text.drop stop).head? = some '\n' := by
    rw [List.head?_drop]
    exact h.right.imp_left fun hend => by rw [hend, List.drop_length]
  have hsplit : text.drop start = between text start stop ++ text.drop stop := by
    have hjoin := List.take_append_drop (stop - start) (text.drop start)
    rw [List.drop_drop, Nat.add_sub_cancel' h.start_le] at hjoin
    rw [between_natCast, hjoin]
  have hne : between text start stop ++ text.drop stop ≠ [] := by
    rw [← hsplit, Ne, List.drop_eq_nil_iff]
    omega
  have hline : '\n' ∉ between text start stop := by
    rw [between_natCast]
    exact h.free.not_mem
  have hlines : sourceLines text =
      sourceLines (text.take start) ++ sourceLines (between text start stop ++ text.drop stop) := by
    rw [← hsplit, ← sourceLines_append hfront, List.take_append_drop]
  rw [hlines, hrow, ← length_sourceLines hfront,
    List.getElem?_append_right (Nat.le_refl _), Nat.sub_self, ← List.head?_eq_getElem?]
  exact head?_sourceLines hline hback hne

theorem getLast?_pieces_concat {sep c : Char} (hc : c ≠ sep) (t : List Char) :
    (pieces sep (t ++ [c])).getLast? ≠ some [] := by
  induction t with
  | nil => simp [pieces, hc]
  | cons d t ih =>
    rw [List.cons_append, pieces]
    cases hp : pieces sep (t ++ [c]) with
    | nil => exact absurd hp (pieces_ne_nil sep _)
    | cons p ps =>
      rw [hp] at ih
      split
      · rwa [List.getLast?_cons_cons]
      · cases ps with
        | nil => simp
        | cons q ps => rwa [List.getLast?_cons_cons] at ih ⊢

theorem length_sourceLines_concat (t : List Char) (c : Char) :
    (sourceLines (t ++ [c])).length = t.count '\n' + 1 := by
  by_cases hc : c = '\n'
  · rw [hc, sourceLines_append_newline, List.length_map, length_pieces]
  · rw [sourceLines_of_getLast? (getLast?_pieces_concat hc t), List.length_map, length_pieces,
      List.count_append, List.count_singleton, if_neg (by simpa using hc)]

theorem exists_rowAt_eq {i n : Nat} (h : i ≤ rowAt text n) : ∃ place ≤ n, rowAt text place = i := by
  induction n with
  | zero => exact ⟨0, Nat.le_refl 0, (Nat.le_zero.mp h).symm⟩
  | succ n ih =>
    by_cases hbefore : i ≤ rowAt text n
    · obtain ⟨place, hle, hrow⟩ := ih hbefore
      exact ⟨place, Nat.le_succ_of_le hle, hrow⟩
    · have hstep : rowAt text (n + 1) ≤ rowAt text n + 1 := by
        rw [rowAt, List.take_add, List.count_append]
        apply Nat.add_le_add_left
        exact List.count_le_length.trans (List.length_take_le 1 _)
      exact ⟨n + 1, Nat.le_refl _, by omega⟩

/-- Every line has a place in the text. -/
theorem exists_place_of_lt_length {i : Nat} (h : i < (sourceLines text).length) :
    ∃ place < text.length, rowAt text place = i := by
  rcases List.eq_nil_or_concat' text with rfl | ⟨t, c, rfl⟩
  · cases h
  · rw [length_sourceLines_concat] at h
    have hrow : rowAt (t ++ [c]) t.length = t.count '\n' := by rw [rowAt, List.take_left]
    have hi : i ≤ rowAt (t ++ [c]) t.length := by omega
    obtain ⟨place, hle, hplace⟩ := exists_rowAt_eq hi
    refine ⟨place, ?_, hplace⟩
    rw [List.length_append, List.length_singleton]
    omega

/-- Without carriage returns, the lines with a line feed behind each, or behind all but the last,
are the text. -/
theorem joinPieces_sourceLines (h : '\r' ∉ text) :
    joinPieces ['\n'] (sourceLines text) ++
      (if text.getLast? = some '\n' then ['\n'] else []) = text := by
  rcases List.eq_nil_or_concat' text with rfl | ⟨t, c, rfl⟩
  · rfl
  · rw [List.getLast?_concat]
    by_cases hc : c = '\n'
    · have hreturn : '\r' ∉ t := fun hmem => h (List.mem_append_left _ hmem)
      rw [hc, if_pos rfl, sourceLines_append_newline,
        map_dropReturn_pieces (noLineReturn_of_not_mem hreturn), joinPieces_pieces]
    · rw [if_neg (by simpa using hc), List.append_nil,
        sourceLines_of_getLast? (getLast?_pieces_concat hc t),
        map_dropReturn_pieces (noLineReturn_of_not_mem h), joinPieces_pieces]

namespace Utf8

theorem feed_ne_toUInt8 {n : Nat} (hne : n ≠ 10) (hlt : n < 256) : (10 : UInt8) ≠ n.toUInt8 := by
  intro heq
  have hnat : (10 : UInt8).toNat = n.toUInt8.toNat := congrArg UInt8.toNat heq
  have hn : n.toUInt8.toNat = n := UInt8.toNat_ofNat_of_lt hlt
  exact hne (hnat.trans hn).symm

/-- No character but the line feed has the byte of a line feed. -/
theorem feed_not_mem_encodeChar {c : Char} (h : c ≠ '\n') : (10 : UInt8) ∉ encodeChar c := by
  have hne : c.toNat ≠ 10 := fun heq => h (Char.toNat_inj.mp heq)
  have hrange : c.toNat < 0x110000 := by
    rcases c.valid with hlow | ⟨-, hhigh⟩
    · exact Nat.lt_trans hlow (by decide)
    · exact hhigh
  have hbyte : ∀ n, n ≠ 10 → n < 256 → (10 : UInt8) ≠ n.toUInt8 := fun n => feed_ne_toUInt8
  simp only [encodeChar]
  split
  · simp only [List.mem_singleton]
    exact hbyte _ hne (by omega)
  · split
    · simp only [List.mem_cons, List.not_mem_nil, or_false, not_or]
      exact ⟨hbyte _ (by omega) (by omega), hbyte _ (by omega) (by omega)⟩
    · split
      · simp only [List.mem_cons, List.not_mem_nil, or_false, not_or]
        exact ⟨hbyte _ (by omega) (by omega), hbyte _ (by omega) (by omega),
          hbyte _ (by omega) (by omega)⟩
      · simp only [List.mem_cons, List.not_mem_nil, or_false, not_or]
        exact ⟨hbyte _ (by omega) (by omega), hbyte _ (by omega) (by omega),
          hbyte _ (by omega) (by omega), hbyte _ (by omega) (by omega)⟩

theorem count_encodeChar (c : Char) :
    (encodeChar c).count 10 = if c = '\n' then 1 else 0 := by
  by_cases h : c = '\n'
  · rw [if_pos h, h]
    rfl
  · rw [if_neg h, List.count_eq_zero.mpr (feed_not_mem_encodeChar h)]

/-- Line feeds are counted alike in a text and in its bytes. -/
theorem count_encode (cs : List Char) : (encode cs).count 10 = cs.count '\n' := by
  induction cs with
  | nil => rfl
  | cons c cs ih =>
    rw [encode, List.flatMap_cons, List.count_append, count_encodeChar, ← encode, ih,
      List.count_cons]
    simp only [beq_iff_eq]
    omega

/-- A character has no line feed among its bytes but the last. -/
theorem count_take_encodeChar {c : Char} {k : Nat} (h : k < (encodeChar c).length) :
    ((encodeChar c).take k).count 10 = 0 := by
  by_cases hfeed : c = '\n'
  · subst hfeed
    obtain rfl : k = 0 := Nat.lt_one_iff.mp h
    rfl
  · apply List.count_eq_zero.mpr
    intro hmem
    exact feed_not_mem_encodeChar hfeed (List.mem_of_mem_take hmem)

/-- All bytes of a character are in the row of its place. -/
theorem count_take_encode {k : Nat} (hlow : (encode (text.take place)).length ≤ k)
    (hhigh : k < (encode (text.take (place + 1))).length) :
    ((encode text).take k).count 10 = rowAt text place := by
  have hplace : place < text.length := by
    by_contra hge
    rw [List.take_of_length_le (by omega)] at hlow hhigh
    omega
  have hnext : encode (text.take (place + 1)) =
      encode (text.take place) ++ encodeChar text[place] := by
    rw [List.take_add_one, List.getElem?_eq_getElem hplace, encode_append]
    simp [encode]
  have hwhole : encode text = encode (text.take (place + 1)) ++ encode (text.drop (place + 1)) := by
    rw [← encode_append, List.take_append_drop]
  rw [hnext, List.length_append] at hhigh
  rw [hwhole, List.take_append_of_le_length (by rw [hnext, List.length_append]; omega), hnext,
    List.take_append, List.take_of_length_le hlow, List.count_append, count_encode,
    count_take_encodeChar (by omega)]
  rfl

end Utf8

end Text

open Text

/-- Under the number of the row of a place, all readers find the same line. The tree has it for the
nodes that start in the character there, the server for the entries whose range starts on the row,
and the manifest for the blocks that it names or finds by reading. -/
structure NumberedAlike (text : List Char) (place : Nat) (line : List Char) : Prop where
  tree : ∀ (file language : String) (n : Tree.Node),
    (Utf8.encode (text.take place)).length ≤ n.start →
    n.start < (Utf8.encode (text.take (place + 1))).length →
    (Tree.Source.ofText file language text).line n = rowAt text place + 1 ∧
      (Tree.Source.ofText file language text).signature n = String.ofList (trim line)
  server : ∀ {fields name container range e}, Server.Outline.range fields = .ok range →
    Server.Outline.lineOf range "start" (.integer 0) = .ok (rowAt text place : Int) →
    Server.Outline.entry fields name container = .ok e →
    e.line = rowAt text place + 1 ∧ ∀ walked file,
      Attribution.lineText ⟨walked, file, sourceLines text⟩ e = String.ofList (trim line)
  anchored : (Terraform.blockAt? (sourceLines text) (rowAt text place + 1)).map
    Terraform.Block.header = Terraform.header? line
  read : ∀ b ∈ Terraform.blocks 1 (sourceLines text), b.line = rowAt text place + 1 →
    b.lines.head? = some line ∧ Terraform.header? line = some b.header

variable {text : List Char} {place : Nat} {line : List Char}

theorem line_of_entry {fields : List (String × Value)} {name container range : Value} {row : Int}
    {e : Server.Outline} (hrange : Server.Outline.range fields = .ok range)
    (hrow : Server.Outline.lineOf range "start" (.integer 0) = .ok row)
    (he : Server.Outline.entry fields name container = .ok e) : e.line = row + 1 := by
  cases name with
  | text n =>
    simp only [Server.Outline.entry, bind_eq_ok_iff] at he
    obtain ⟨r, hr, start, hstart, stop, -, kind, -, he⟩ := he
    obtain rfl : range = r := Except.ok.inj (hrange.symm.trans hr)
    obtain rfl : row = start := Except.ok.inj (hrow.symm.trans hstart)
    cases he
    rfl
  | null | boolean | integer | real | list | record => cases he

theorem head?_lines_of_mem_blocks {lines : List (List Char)} {b : Terraform.Block}
    (hb : b ∈ Terraform.blocks 1 lines) :
    b.lines.head? = lines[b.start]? ∧ b.line = b.start + 1 ∧
      ∃ line, lines[b.start]? = some line ∧ Terraform.header? line = some b.header := by
  have hspan := Terraform.isSpanOf_of_mem_blocks hb
  refine ⟨?_, hspan.line_eq, hspan.opens⟩
  have hle := hspan.start_le_stop
  rw [hspan.lines_eq, Terraform.linesBetween, List.head?_take, if_neg (by omega), List.head?_drop]

theorem numberedAlike_of_getElem? (h : (sourceLines text)[rowAt text place]? = some line) :
    NumberedAlike text place line := by
  refine ⟨?_, ?_, ?_, ?_⟩
  · intro file language n hlow hhigh
    have hrow : (Tree.Source.ofText file language text).row n.start = rowAt text place :=
      Utf8.count_take_encode hlow hhigh
    refine ⟨?_, ?_⟩
    · rw [Tree.Source.line, hrow]
    · have hline : (Tree.Source.ofText file language text).lines[rowAt text place]? = some line := h
      rw [Tree.Source.signature, hrow, hline]
  · intro fields name container range e hrange hrow he
    have hnumber := line_of_entry hrange hrow he
    refine ⟨hnumber, ?_⟩
    intro walked file
    have hindex : (e.line - 1).toNat = rowAt text place := by omega
    rw [Attribution.lineText, if_pos (by omega), hindex, h]
  · have hindex : ((rowAt text place : Int) + 1 - 1).toNat = rowAt text place := by omega
    obtain ⟨rest, hrest⟩ : ∃ rest, (sourceLines text).drop (rowAt text place) = line :: rest :=
      List.head?_eq_some_iff.mp (by rw [List.head?_drop, h])
    rw [Terraform.blockAt?, hindex, hrest]
    simp [Function.comp_def]
  · intro b hb hnumber
    obtain ⟨hfirst, hstart, first, hget, hheader⟩ := head?_lines_of_mem_blocks hb
    have hindex : b.start = rowAt text place := by omega
    rw [hindex, h] at hget hfirst
    cases hget
    exact ⟨hfirst, hheader⟩

/-- The rows of the places of a text are the indices of its lines. Each line is the longest stretch
without line feeds around its places, less one carriage return, and all readers find it under the
same number. Without carriage returns, the lines give the text back. -/
theorem rows_index_sourceLines (text : List Char) :
    (∀ place < text.length, rowAt text place < (sourceLines text).length ∧
      (∃ start stop, IsLongestLine text start stop ∧ start ≤ place ∧ place ≤ stop) ∧
      ∀ start stop, IsLongestLine text start stop → start ≤ place → place ≤ stop →
        (sourceLines text)[rowAt text place]? = some (dropReturn (between text start stop))) ∧
    ('\r' ∉ text → joinPieces ['\n'] (sourceLines text) ++
      (if text.getLast? = some '\n' then ['\n'] else []) = text) ∧
    (∀ i < (sourceLines text).length, ∃ place < text.length, rowAt text place = i) ∧
    ∀ place line, (sourceLines text)[rowAt text place]? = some line →
      NumberedAlike text place line := by
  refine ⟨?_, joinPieces_sourceLines, fun i => exists_place_of_lt_length,
    fun place line => numberedAlike_of_getElem?⟩
  intro place hplace
  obtain ⟨start, stop, hline, hstart, hstop⟩ := exists_longestLine (Nat.le_of_lt hplace)
  have hget := hline.getElem?_sourceLines hstart hstop hplace
  refine ⟨(List.getElem?_eq_some_iff.mp hget).1, ⟨start, stop, hline, hstart, hstop⟩, ?_⟩
  intro start stop hline hstart hstop
  exact hline.getElem?_sourceLines hstart hstop hplace

/-- An empty line, and one with a separator of paragraphs in it, which separates no lines. -/
def separatorText : List Char := "\n\u2029b\n".toList

theorem rows_index_separatorText :
    3 < separatorText.length ∧ '\r' ∉ separatorText ∧ IsLongestLine separatorText 1 3 ∧
    (sourceLines separatorText)[rowAt separatorText 3]? =
      some (dropReturn (between separatorText (1 : Nat) (3 : Nat))) ∧
    joinPieces ['\n'] (sourceLines separatorText) ++
      (if separatorText.getLast? = some '\n' then ['\n'] else []) = separatorText := by
  have hplace : 3 < separatorText.length := by decide +kernel
  have hreturn : '\r' ∉ separatorText := by decide +kernel
  have hline : IsLongestLine separatorText 1 3 := by
    refine isLongestLine_of_bounds (by omega) (Nat.le_of_lt hplace) ?_ (.inr (by decide +kernel))
      (.inr (by decide +kernel))
    intro p hp hlt
    obtain rfl | rfl : p = 1 ∨ p = 2 := by omega
    · decide +kernel
    · decide +kernel
  have hrows := rows_index_sourceLines separatorText
  exact ⟨hplace, hreturn, hline, (hrows.1 3 hplace).2.2 1 3 hline (by omega) (by omega),
    hrows.2.1 hreturn⟩

example : sourceLines "a\r\r\n\n\u2028b".toList = ["a\r".toList, [], "\u2028b".toList] := by
  decide +kernel

end CodeAtlas
