import CodeAtlas.Proofs.Terraform.Spans
import CodeAtlas.Proofs.Text
import CodeAtlas.Proofs.Value.Decimal

/-!
# Texts one behind the other

What a text yields stays the same in front of another text, if the text ends with
its last line and closes every block that it opens. What the other text yields is
moved down by the lines in front of it: in its records and in the lines that its
problems name. Neither text changes how the other is read.
-/

namespace CodeAtlas.Terraform

open CodeAtlas.Text

/-- A block that stands further down. -/
def Block.lowered (n : Nat) (b : Block) : Block := { b with line := b.line + n }

/-- A problem that names a line, when that line stands further down. -/
def loweredError (n : Nat) (error : String) : String :=
  let behind := error.toList.drop "line ".length
  let number := Nat.ofDigitChars 10 (behind.takeWhile Char.isDigit) 0
  if "line ".toList.isPrefixOf error.toList then
    "line " ++ toString (number + n) ++ String.ofList (behind.dropWhile Char.isDigit)
  else error

namespace Records

/-- Records of blocks that stand further down. -/
def lowered (n : Nat) (r : Records) : Records where
  resources := r.resources.map fun x => { x with line := x.line + n }
  dataSources := r.dataSources.map fun x => { x with line := x.line + n }
  modules := r.modules.map fun x => { x with line := x.line + n }
  variableDecls := r.variableDecls.map fun x => { x with line := x.line + n }
  outputs := r.outputs.map fun x => { x with line := x.line + n }
  providers := r.providers.map fun x => { x with line := x.line + n }
  locals := r.locals.map fun x => { x with line := x.line + n }
  errors := r.errors.map (loweredError n)

end Records

/-- Lines behind a block that is closed are not part of it. -/
theorem splitBlock_append_of_closed (depth : Int) {opened : Bool} {lines : List (List Char)}
    (hne : lines ≠ []) (h : opened = true ∨ ∃ line, lines.head? = some line ∧ '{' ∈ line)
    (hclosed : depth + netBraces (splitBlock depth opened lines).1 ≤ 0)
    (more : List (List Char)) :
    splitBlock depth opened (lines ++ more) =
      ((splitBlock depth opened lines).1, (splitBlock depth opened lines).2 ++ more) := by
  induction lines generalizing depth opened with
  | nil => exact absurd rfl hne
  | cons line rest ih =>
    have hopened : opened = true ∨ '{' ∈ line := by simpa using h
    rw [List.cons_append, splitBlock_cons_of_opened depth hopened,
      splitBlock_cons_of_opened depth hopened]
    rw [splitBlock_cons_of_opened depth hopened] at hclosed
    split
    next => rfl
    next hopen =>
      rw [if_neg hopen, netBraces_cons] at hclosed
      have hrest : rest ≠ [] := by
        rintro rfl
        simp only [splitBlock, netBraces_nil] at hclosed
        omega
      rw [ih (depth + braceDelta line) hrest (.inl rfl) (by omega)]

/-- If every block of some lines is closed, the blocks of further lines come behind them. -/
theorem blocks_append {number : Int} {lines : List (List Char)}
    (h : ∀ b ∈ blocks number lines, netBraces b.lines ≤ 0) (more : List (List Char)) :
    blocks number (lines ++ more) =
      blocks number lines ++ blocks (number + lines.length) more := by
  induction number, lines using blocks.induct with
  | case1 number =>
    rw [blocks]
    simp
  | case2 number line rest hheader ih =>
    rw [blocks, hheader] at h
    have hnumber : number + ((line :: rest).length : Int) = number + 1 + rest.length := by
      rw [List.length_cons]
      omega
    rw [List.cons_append, blocks, blocks, hheader, hnumber]
    exact ih h
  | case3 number line rest header hheader cut =>
    rename_i ih
    rw [blocks, hheader] at h
    have hcut : cutBlock (line :: rest ++ more) = (cut.1, cut.2 ++ more) := by
      refine splitBlock_append_of_closed 0 (by simp) ?_ ?_ more
      · exact .inr ⟨line, rfl, brace_mem_of_header? hheader⟩
      · have hclosed : netBraces cut.1 ≤ 0 := h _ List.mem_cons_self
        rwa [Int.zero_add]
    have happend : (line :: rest).length = cut.1.length + cut.2.length := by
      rw [← List.length_append]
      exact congrArg List.length (splitBlock_append 0 false (line :: rest)).symm
    have hnumber : number + ((line :: rest).length : Int) =
        number + (cut.1.length : Int) + cut.2.length := by omega
    have hrest := ih fun b hb => h b (List.mem_cons_of_mem _ hb)
    rw [List.cons_append] at hcut ⊢
    rw [blocks, blocks, hheader, hnumber]
    simp only [hcut]
    rw [hrest]
    rfl

/-- The number of the first line moves all blocks and changes nothing else. -/
theorem blocks_add (number : Int) (n : Nat) (lines : List (List Char)) :
    blocks (number + n) lines = (blocks number lines).map (Block.lowered n) := by
  induction number, lines using blocks.induct with
  | case1 number =>
    rw [blocks, blocks]
    rfl
  | case2 number line rest hheader ih =>
    have hnumber : number + 1 + (n : Int) = number + n + 1 := by omega
    rw [blocks, blocks, hheader, ← ih, hnumber]
  | case3 number line rest header hheader cut =>
    rename_i ih
    have hnumber : number + (cut.1.length : Int) + n = number + n + cut.1.length := by omega
    rw [blocks, blocks, hheader, List.map_cons, ← ih, hnumber]
    rfl

/-- The text of a problem is moved by moving the line that it names. -/
theorem loweredError_unterminated (n line : Nat) (h : Header) :
    loweredError n (unterminated line h) = unterminated ((line : Int) + n) h := by
  have hstring : ∀ k : Nat, toString (k : Int) = String.ofList (Nat.toDigits 10 k) := fun k => rfl
  let tail := ": unterminated " ++ h.keyword ++ " block"
  have htail : tail.toList.head? = some ':' := by simp [tail]
  have htext : ∀ k : Nat, unterminated k h = "line " ++ toString (k : Int) ++ tail := by
    intro k
    simp [unterminated, tail, String.append_assoc]
  have hlist : (unterminated line h).toList =
      "line ".toList ++ (Nat.toDigits 10 line ++ tail.toList) := by
    rw [htext, hstring]
    simp
  have hdigits : ∀ c ∈ Nat.toDigits 10 line, c.isDigit = true :=
    fun c hc => Nat.isDigit_of_mem_toDigits (by decide) (by decide) hc
  have hcolon : tail.toList = ':' :: tail.toList.tail := (List.cons_head?_tail htail).symm
  have htake : (Nat.toDigits 10 line ++ tail.toList).takeWhile Char.isDigit =
      Nat.toDigits 10 line := by
    rw [List.takeWhile_append_of_pos hdigits, hcolon, List.takeWhile_cons_of_neg (by decide),
      List.append_nil]
  have hdrop : (Nat.toDigits 10 line ++ tail.toList).dropWhile Char.isDigit = tail.toList := by
    rw [List.dropWhile_append_of_pos hdigits, hcolon, List.dropWhile_cons_of_neg (by decide)]
  have hbehind : ("line ".toList ++ (Nat.toDigits 10 line ++ tail.toList)).drop "line ".length =
      Nat.toDigits 10 line ++ tail.toList := List.drop_left' rfl
  have hprefix : "line ".toList.isPrefixOf
      ("line ".toList ++ (Nat.toDigits 10 line ++ tail.toList)) = true :=
    List.isPrefixOf_iff_prefix.mpr (List.prefix_append _ _)
  rw [loweredError, hlist]
  simp only [hbehind, hprefix, htake, hdrop, if_true, String.ofList_toList]
  rw [← Int.natCast_add, htext, Nat.ofDigitChars_ten_toDigits]
  rfl

namespace Records

theorem append_assoc (a b c : Records) : a ++ b ++ c = a ++ (b ++ c) := by
  show append (append a b) c = append a (append b c)
  simp only [append, List.append_assoc]

theorem join_append (as bs : List Records) : join (as ++ bs) = join as ++ join bs := by
  induction as with
  | nil => rfl
  | cons a as ih =>
    have hcons : ∀ rest, join (a :: rest) = a ++ join rest := fun rest => rfl
    rw [List.cons_append, hcons, hcons, ih, append_assoc]

theorem lowered_append (n : Nat) (a b : Records) :
    (a ++ b).lowered n = a.lowered n ++ b.lowered n := by
  show (append a b).lowered n = append (a.lowered n) (b.lowered n)
  simp only [append, lowered, List.map_append]

theorem lowered_join (n : Nat) (parts : List Records) :
    (join parts).lowered n = join (parts.map (lowered n)) := by
  induction parts with
  | nil => rfl
  | cons part parts ih =>
    have hcons : ∀ (p : Records) ps, join (p :: ps) = p ++ join ps := fun p ps => rfl
    rw [List.map_cons, hcons, hcons, lowered_append, ih]

end Records

theorem contents_lowered (file : String) (n : Nat) (b : Block) :
    (b.lowered n).contents file = (b.contents file).lowered n := by
  obtain ⟨header, lines, line⟩ := b
  cases header <;> simp [Block.contents, Block.lowered, Records.lowered, Block.text]

/-- A block that stands further down yields the same, further down. -/
theorem records_lowered (file : String) (n : Nat) {b : Block} (h : 0 ≤ b.line) :
    (b.lowered n).records file = (b.records file).lowered n := by
  have herrors : (if b.isClosed then [] else [unterminated (b.line + n) b.header]) =
      (if b.isClosed then [] else [unterminated b.line b.header]).map (loweredError n) := by
    obtain ⟨line, hline⟩ := Int.eq_ofNat_of_zero_le h
    rw [hline, ← loweredError_unterminated]
    split <;> rfl
  calc (b.lowered n).records file
      = { (b.lowered n).contents file with
          errors := if b.isClosed then [] else [unterminated (b.line + n) b.header] } := rfl
    _ = { (b.contents file).lowered n with
          errors := (if b.isClosed then [] else [unterminated b.line b.header]).map
            (loweredError n) } := by rw [contents_lowered, herrors]
    _ = (b.records file).lowered n := rfl

/-- A text that ends with its last line and closes its blocks can be read by itself, and so can any
text behind it: together they yield what each of them does, list by list, where the lines of the
second are counted on from those of the first. -/
theorem ofText_append {front : List Char} (back : List Char) (file : String)
    (hend : front = [] ∨ front.getLast? = some '\n')
    (hclosed : ∀ b ∈ blocks 1 (sourceLines front), ∃ i, ClosesAt (sourceLines front) b.start i) :
    Manifest.ofText (front ++ back) file =
      { (Manifest.ofText front file).toRecords ++
          (Manifest.ofText back file).toRecords.lowered (front.count '\n') with file } := by
  have hnet : ∀ b ∈ blocks 1 (sourceLines front), netBraces b.lines ≤ 0 := by
    intro b hb
    obtain ⟨i, hi⟩ := hclosed b hb
    have hspan := isSpanOf_of_mem_blocks hb
    rw [hspan.lines_eq]
    exact (hspan.ends.resolve_right fun hnone => hnone.1 i hi).1.net_le
  have hblocks : blocks 1 (sourceLines (front ++ back)) =
      blocks 1 (sourceLines front) ++
        (blocks 1 (sourceLines back)).map (Block.lowered (front.count '\n')) := by
    rw [sourceLines_append hend, blocks_append hnet, length_sourceLines hend, blocks_add]
  have hrecords : ((blocks 1 (sourceLines back)).map (Block.lowered (front.count '\n'))).map
      (Block.records file) =
      ((blocks 1 (sourceLines back)).map (Block.records file)).map
        (Records.lowered (front.count '\n')) := by
    rw [List.map_map, List.map_map]
    apply List.map_congr_left
    intro b hb
    have hline := number_le_line hb
    exact records_lowered file _ (by omega)
  simp only [Manifest.ofText, hblocks, List.map_append, Records.join_append, hrecords,
    Records.lowered_join]

/-- A block that closes more braces than it opens, with a blank line behind it. -/
def overclosedText : List Char := "locals \x7b\r\n\x7d\x7d\n\n".toList

/-- A block that is never closed, without an end of its last line. -/
def danglingText : List Char := "provider \"p\" \x7b".toList

theorem ofText_append_overclosedText :
    overclosedText.getLast? = some '\n' ∧
    (∀ b ∈ blocks 1 (sourceLines overclosedText),
      ∃ i, ClosesAt (sourceLines overclosedText) b.start i) ∧
    Manifest.ofText (overclosedText ++ danglingText) "main.tf" =
      { (Manifest.ofText overclosedText "main.tf").toRecords ++
          (Manifest.ofText danglingText "main.tf").toRecords.lowered 3 with file := "main.tf" } ∧
    (Manifest.ofText (overclosedText ++ danglingText) "main.tf").errors =
      ["line 1: unterminated locals block", "line 4: unterminated provider block"] := by
  have hlast : overclosedText.getLast? = some '\n' := by decide +kernel
  have hblocks : blocks 1 (sourceLines overclosedText) =
      [⟨.locals, (sourceLines overclosedText).take 2, 1⟩] := by decide +kernel
  have hclosed : ∀ b ∈ blocks 1 (sourceLines overclosedText),
      ∃ i, ClosesAt (sourceLines overclosedText) b.start i := by
    rw [hblocks, List.forall_mem_singleton]
    exact ⟨1, by decide +kernel, by decide +kernel, by decide +kernel⟩
  have hcount : overclosedText.count '\n' = 3 := by decide +kernel
  have hread := ofText_append danglingText "main.tf" (.inr hlast) hclosed
  rw [hcount] at hread
  refine ⟨hlast, hclosed, hread, ?_⟩
  rw [hread]
  decide +kernel

end CodeAtlas.Terraform
