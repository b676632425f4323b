import CodeAtlas.Proofs.Terraform.Anchors
import Mathlib.Data.List.Basic
import Mathlib.Order.Bounds.Basic

/-!
# The spans of blocks

Blocks are spans of lines, one behind another. A span starts on a line that opens a
block and ends on the first line after which no more braces are open than closed,
counted from its start, or else on the last line of all. The search passes over a
line outside the spans only if it opens nothing. The problems that are reported are
those of the spans with unequal numbers of braces.
-/

namespace CodeAtlas.Terraform

open CodeAtlas.Text

/-- Opening less closing braces on some lines. -/
def netBraces : List (List Char) → Int
  | [] => 0
  | line :: lines => braceDelta line + netBraces lines

/-- The lines from one place to another, both included. Places are counted from zero. -/
def linesBetween (lines : List (List Char)) (start stop : Nat) : List (List Char) :=
  (lines.drop start).take (stop + 1 - start)

/-- After the line `stop` no more braces are open than closed, counted from the line `start`. -/
structure ClosesAt (lines : List (List Char)) (start stop : Nat) : Prop where
  start_le : start ≤ stop
  lt_length : stop < lines.length
  net_le : netBraces (linesBetween lines start stop) ≤ 0

/-- The last line of what opens on the line `start`: the first line that closes it, or the last of
all when none does. -/
def IsLastLine (lines : List (List Char)) (start stop : Nat) : Prop :=
  IsLeast {i | ClosesAt lines start i} stop ∨
    ((∀ i, ¬ClosesAt lines start i) ∧ stop + 1 = lines.length)

namespace Block

/-- The place of the opening line. -/
def start (b : Block) : Nat := (b.line - 1).toNat

/-- The place of the last line. -/
def stop (b : Block) : Nat := b.start + (b.lines.length - 1)

/-- A block is the lines of its span: it opens on the first and ends on the last of them. -/
structure IsSpanOf (lines : List (List Char)) (b : Block) : Prop where
  start_le_stop : b.start ≤ b.stop
  stop_lt : b.stop < lines.length
  line_eq : b.line = b.start + 1
  lines_eq : b.lines = linesBetween lines b.start b.stop
  opens : ∃ line, lines[b.start]? = some line ∧ header? line = some b.header
  ends : IsLastLine lines b.start b.stop

end Block

@[simp] theorem netBraces_nil : netBraces [] = 0 := rfl

@[simp] theorem netBraces_cons (line : List Char) (lines : List (List Char)) :
    netBraces (line :: lines) = braceDelta line + netBraces lines := rfl

theorem braceDelta_append (a b : List Char) :
    braceDelta (a ++ b) = braceDelta a + braceDelta b := by
  simp only [braceDelta, List.count_append]
  omega

/-- Line ends count for nothing. -/
theorem braceDelta_joinPieces (lines : List (List Char)) :
    braceDelta (joinPieces ['\n'] lines) = netBraces lines := by
  induction lines with
  | nil => rfl
  | cons line lines ih =>
    have hfeed : braceDelta ['\n'] = 0 := by decide
    cases lines with
    | nil => simp [joinPieces]
    | cons next lines =>
      rw [joinPieces, braceDelta_append, braceDelta_append, hfeed, ih, netBraces_cons line,
        Int.add_zero]

theorem brace_mem_of_opensNext {cs : List Char} (h : opensNext cs = true) : '{' ∈ cs := by
  have hhead : (trimLeft cs).head? = some '{' := by simpa [opensNext] using h
  exact (List.dropWhile_suffix _).subset (List.mem_of_head? hhead)

theorem suffix_of_label? {cs rest : List Char} {name : String} (h : label? cs = some (name, rest)) :
    rest <:+ cs := by
  cases cs with
  | nil => cases h
  | cons c cs =>
    rw [label?] at h
    split at h
    · split at h
      next inner htrim =>
        have hinner : inner <:+ cs := by
          have hquote := List.dropWhile_suffix (l := cs) isBlank
          rw [← trimLeft, htrim] at hquote
          exact (List.suffix_cons _ _).trans hquote
        dsimp only at h
        split at h
        next d after hdrop =>
          have hafter : after <:+ inner := by
            have hsuffix := List.dropWhile_suffix (l := inner) (· != '"')
            rw [hdrop] at hsuffix
            exact (List.suffix_cons _ _).trans hsuffix
          split at h
          · cases h
          · cases h
            exact (hafter.trans hinner).trans (List.suffix_cons _ _)
        next => cases h
      next => cases h
    · cases h

theorem brace_mem_of_oneLabel? {cs : List Char} {name : String} (h : oneLabel? cs = some name) :
    '{' ∈ cs := by
  simp only [oneLabel?, Option.bind_eq_bind, Option.bind_eq_some_iff, Prod.exists] at h
  obtain ⟨n, rest, hlabel, hname⟩ := h
  split at hname
  next hopens => exact (suffix_of_label? hlabel).subset (brace_mem_of_opensNext hopens)
  next => cases hname

theorem brace_mem_of_twoLabels? {cs : List Char} {labels : String × String}
    (h : twoLabels? cs = some labels) : '{' ∈ cs := by
  simp only [twoLabels?, Option.bind_eq_bind, Option.bind_eq_some_iff, Prod.exists] at h
  obtain ⟨n, rest, hlabel, name, hname, -⟩ := h
  exact (suffix_of_label? hlabel).subset (brace_mem_of_oneLabel? hname)

/-- A brace opens on every line that opens a block. -/
theorem brace_mem_of_header? {line : List Char} {h : Header} (hh : header? line = some h) :
    '{' ∈ line := by
  have hrest : '{' ∈ (trimLeft line).dropWhile Char.isLower := by
    simp only [header?] at hh
    split at hh
    case h_1 | h_2 =>
      obtain ⟨labels, hlabels, -⟩ := Option.map_eq_some_iff.mp hh
      exact brace_mem_of_twoLabels? hlabels
    case h_3 | h_4 | h_5 | h_6 =>
      obtain ⟨name, hname, -⟩ := Option.map_eq_some_iff.mp hh
      exact brace_mem_of_oneLabel? hname
    case h_7 =>
      split at hh
      next hopens => exact brace_mem_of_opensNext hopens
      next => cases hh
    case h_8 => cases hh
  exact (List.dropWhile_suffix _).subset ((List.dropWhile_suffix _).subset hrest)

theorem splitBlock_cons_of_opened (depth : Int) {opened : Bool} {line : List Char}
    (h : opened = true ∨ '{' ∈ line) (rest : List (List Char)) :
    splitBlock depth opened (line :: rest) =
      if depth + braceDelta line ≤ 0 then ([line], rest)
      else (line :: (splitBlock (depth + braceDelta line) true rest).1,
        (splitBlock (depth + braceDelta line) true rest).2) := by
  have hopened : (opened || line.contains '{') = true := by simpa using h
  simp only [splitBlock, hopened, Bool.true_and, decide_eq_true_eq]

/-- Before the cut more braces are open than closed, line by line. -/
theorem splitBlock_open (depth : Int) {opened : Bool} {lines : List (List Char)}
    (h : opened = true ∨ ∃ line, lines.head? = some line ∧ '{' ∈ line) {k : Nat} (hpos : 0 < k)
    (hk : k < (splitBlock depth opened lines).1.length) :
    0 < depth + netBraces (lines.take k) := by
  induction lines generalizing depth opened k with
  | nil => cases hk
  | cons line rest ih =>
    rw [splitBlock_cons_of_opened depth (by simpa using h)] at hk
    split at hk
    · simp only [List.length_singleton] at hk
      omega
    next hopen =>
      obtain ⟨k, rfl⟩ : ∃ j, k = j + 1 := ⟨k - 1, by omega⟩
      rw [List.take_succ_cons, netBraces_cons]
      by_cases hzero : k = 0
      · rw [hzero, List.take_zero, netBraces_nil]
        omega
      · have hrest := ih (depth + braceDelta line) (k := k) (.inl rfl) (by omega)
          (by simpa using hk)
        omega

/-- The cut is behind the line that closes the block, or behind the last. -/
theorem splitBlock_closed (depth : Int) {opened : Bool} {lines : List (List Char)}
    (h : opened = true ∨ ∃ line, lines.head? = some line ∧ '{' ∈ line) :
    depth + netBraces (splitBlock depth opened lines).1 ≤ 0 ∨
      (splitBlock depth opened lines).2 = [] := by
  induction lines generalizing depth opened with
  | nil => exact .inr rfl
  | cons line rest ih =>
    rw [splitBlock_cons_of_opened depth (by simpa using h)]
    split
    next hclosed => exact .inl (by simpa using hclosed)
    next =>
      rcases ih (depth + braceDelta line) (.inl rfl) with hnet | hnil
      · refine .inl ?_
        rw [netBraces_cons]
        omega
      · exact .inr hnil

/-- A block that is found by reading opens where its number says and is cut out from there. -/
theorem exists_drop_of_mem_blocks {lines : List (List Char)} {b : Block}
    (hb : b ∈ blocks 1 lines) :
    b.line = b.start + 1 ∧ ∃ first rest, lines.drop b.start = first :: rest ∧
      header? first = some b.header ∧ b.lines = (cutBlock (lines.drop b.start)).1 := by
  obtain ⟨hblock, hfirst, -⟩ := blockAt?_of_mem_blocks [] (by simp) hb
  rw [List.nil_append, blockAt?] at hblock
  refine ⟨by rw [Block.start]; omega, ?_⟩
  split at hblock
  next => cases hblock
  next first rest hdrop =>
    obtain ⟨header, hheader, heq⟩ := Option.map_eq_some_iff.mp hblock
    have hdrop : lines.drop b.start = first :: rest := hdrop
    refine ⟨first, rest, hdrop, ?_, ?_⟩
    · rw [hheader, ← heq]
    · rw [hdrop, ← heq]

section Cut

variable {lines : List (List Char)} {start : Nat} {first : List Char} {rest : List (List Char)}

theorem length_cutBlock (hdrop : lines.drop start = first :: rest) :
    0 < (cutBlock (lines.drop start)).1.length ∧
      start + (cutBlock (lines.drop start)).1.length + (cutBlock (lines.drop start)).2.length =
        lines.length := by
  have happend := congrArg List.length (splitBlock_append 0 false (lines.drop start))
  have hpos : 0 < (lines.drop start).length := by simp [hdrop]
  rw [← cutBlock, List.length_append] at happend
  rw [List.length_drop] at happend hpos
  refine ⟨?_, by omega⟩
  rw [hdrop]
  exact List.length_pos_iff.mpr (splitBlock_fst_ne_nil 0 false first rest)

/-- What is cut out are the lines up to its last one. -/
theorem linesBetween_cutBlock (hdrop : lines.drop start = first :: rest) :
    linesBetween lines start (start + ((cutBlock (lines.drop start)).1.length - 1)) =
      (cutBlock (lines.drop start)).1 := by
  have hfront : (cutBlock (lines.drop start)).1 <+: lines.drop start :=
    ⟨_, splitBlock_append 0 false (lines.drop start)⟩
  have hlength : start + ((cutBlock (lines.drop start)).1.length - 1) + 1 - start =
      (cutBlock (lines.drop start)).1.length := by
    have hpos := (length_cutBlock hdrop).1
    omega
  rw [linesBetween, hlength]
  exact (List.prefix_iff_eq_take.mp hfront).symm

theorem isLastLine_cutBlock {header : Header} (hdrop : lines.drop start = first :: rest)
    (hheader : header? first = some header) :
    IsLastLine lines start (start + ((cutBlock (lines.drop start)).1.length - 1)) := by
  have hopened : false = true ∨ ∃ line, (lines.drop start).head? = some line ∧ '{' ∈ line :=
    .inr ⟨first, by rw [hdrop]; rfl, brace_mem_of_header? hheader⟩
  have hopen : ∀ k, 0 < k → k < (cutBlock (lines.drop start)).1.length →
      0 < 0 + netBraces ((lines.drop start).take k) := fun k => splitBlock_open 0 hopened
  have hclosed : 0 + netBraces (cutBlock (lines.drop start)).1 ≤ 0 ∨
      (cutBlock (lines.drop start)).2 = [] := splitBlock_closed 0 hopened
  obtain ⟨hpos, hlength⟩ := length_cutBlock hdrop
  have hlines := linesBetween_cutBlock hdrop
  generalize cutBlock (lines.drop start) = cut at *
  by_cases hnet : netBraces cut.1 ≤ 0
  · refine .inl ⟨⟨by omega, by omega, by rwa [hlines]⟩, ?_⟩
    rintro i ⟨hstart, -, hle⟩
    by_contra hlt
    have hpositive := hopen (i + 1 - start) (by omega) (by omega)
    rw [linesBetween] at hle
    omega
  · have hnil : cut.2 = [] := hclosed.resolve_left (by omega)
    rw [hnil, List.length_nil] at hlength
    refine .inr ⟨?_, by omega⟩
    rintro i ⟨hstart, hlast, hle⟩
    by_cases hlt : i + 1 - start < cut.1.length
    · have hpositive := hopen (i + 1 - start) (by omega) hlt
      rw [linesBetween] at hle
      omega
    · have hwhole : i = start + (cut.1.length - 1) := by omega
      rw [hwhole, hlines] at hle
      exact hnet hle

end Cut

theorem Block.IsSpanOf.length_lines {lines : List (List Char)} {b : Block}
    (h : b.IsSpanOf lines) : b.start + b.lines.length = b.stop + 1 := by
  have hlength := congrArg List.length h.lines_eq
  have hle := h.start_le_stop
  have hlt := h.stop_lt
  rw [linesBetween, List.length_take, List.length_drop] at hlength
  omega

/-- Every block that is found is the lines of its span. -/
theorem isSpanOf_of_mem_blocks {lines : List (List Char)} {b : Block} (hb : b ∈ blocks 1 lines) :
    b.IsSpanOf lines := by
  obtain ⟨hline, first, rest, hdrop, hheader, hcut⟩ := exists_drop_of_mem_blocks hb
  obtain ⟨hpos, hlength⟩ := length_cutBlock hdrop
  have hlines := linesBetween_cutBlock hdrop
  have hlast := isLastLine_cutBlock hdrop hheader
  rw [← hcut] at hpos hlength hlines hlast
  refine ⟨Nat.le_add_right _ _, ?_, hline, hlines.symm, ⟨first, ?_, hheader⟩, hlast⟩
  · rw [Block.stop]
    omega
  · rw [← List.head?_drop, hdrop]
    rfl

theorem number_le_line {number : Int} {lines : List (List Char)} {b : Block}
    (hb : b ∈ blocks number lines) : number ≤ b.line := by
  induction number, lines using blocks.induct with
  | case1 number =>
    rw [blocks] at hb
    cases hb
  | case2 number line rest hheader ih =>
    rw [blocks, hheader] at hb
    have hrest := ih hb
    omega
  | case3 number line rest header hheader cut =>
    rename_i ih
    rw [blocks, hheader] at hb
    rcases List.mem_cons.mp hb with rfl | hb
    · exact Int.le_refl _
    · have hrest := ih hb
      omega

/-- A block opens behind the last line of the one before. -/
theorem pairwise_blocks (number : Int) (lines : List (List Char)) :
    (blocks number lines).Pairwise fun a b => a.line + (a.lines.length : Int) ≤ b.line := by
  induction number, lines using blocks.induct with
  | case1 number =>
    rw [blocks]
    exact .nil
  | case2 number line rest hheader ih =>
    rw [blocks, hheader]
    exact ih
  | case3 number line rest header hheader cut =>
    rename_i ih
    rw [blocks, hheader]
    exact .cons (fun b hb => number_le_line hb) ih

/-- No line that opens a block is passed over: it lies in the span of one that is found. -/
theorem exists_block_of_header? (number : Int) {lines : List (List Char)} {i : Nat}
    {line : List Char} (hline : lines[i]? = some line) (hheader : header? line ≠ none) :
    ∃ b ∈ blocks number lines, b.line ≤ number + i ∧ number + i < b.line + b.lines.length := by
  induction number, lines using blocks.induct generalizing i with
  | case1 number => cases hline
  | case2 number first rest hnone ih =>
    rw [blocks, hnone]
    cases i with
    | zero =>
      obtain rfl : first = line := by simpa using hline
      exact absurd hnone hheader
    | succ i =>
      obtain ⟨b, hb, hle, hlt⟩ := ih (i := i) (by simpa using hline)
      exact ⟨b, hb, by omega, by omega⟩
  | case3 number first rest header hfirst cut =>
    rename_i ih
    rw [blocks, hfirst]
    by_cases hin : i < cut.1.length
    · refine ⟨_, List.mem_cons_self, ?_, ?_⟩
      · exact Int.le_add_of_nonneg_right (Int.natCast_nonneg i)
      · exact Int.add_lt_add_left (Int.ofNat_lt.mpr hin) number
    · have happend : cut.1 ++ cut.2 = first :: rest := splitBlock_append 0 false (first :: rest)
      rw [← happend, List.getElem?_append_right (by omega)] at hline
      obtain ⟨b, hb, hle, hlt⟩ := ih hline
      exact ⟨b, List.mem_cons_of_mem _ hb, by omega, by omega⟩

/-- A problem is reported for the blocks whose braces do not balance, and for no others. -/
theorem errors_ofText (text : List Char) (file : String) :
    (Manifest.ofText text file).errors =
      ((blocks 1 (sourceLines text)).filter fun b => netBraces b.lines ≠ 0).map
        fun b => unterminated b.line b.header := by
  have hjoin : (Manifest.ofText text file).errors =
      ((blocks 1 (sourceLines text)).map (Block.records file)).flatMap Records.errors :=
    Records.errors_join _
  rw [hjoin]
  induction blocks 1 (sourceLines text) with
  | nil => rfl
  | cons b bs ih =>
    have hclosed : b.isClosed = decide (netBraces b.lines = 0) := by
      rw [Block.isClosed, Block.text, braceDelta_joinPieces]
    have herrors : (b.records file).errors =
        if netBraces b.lines = 0 then [] else [unterminated b.line b.header] := by
      simp [Block.records, hclosed]
    rw [List.map_cons, List.flatMap_cons, ih, herrors]
    by_cases hnet : netBraces b.lines = 0 <;> simp [hnet]

/-- The blocks of a text are spans of its lines that follow one another without overlap. Each
starts on an opening line and ends where its braces are first closed, or at the end. Every line
outside of them opens nothing. In their order, those with unequal numbers of braces are reported,
each with the number of its opening line. -/
theorem blocks_spans_exact (text : List Char) (file : String) :
    (∀ b ∈ blocks 1 (sourceLines text), b.IsSpanOf (sourceLines text)) ∧
    ((blocks 1 (sourceLines text)).Pairwise fun a b => a.stop < b.start) ∧
    (∀ i line, (sourceLines text)[i]? = some line →
      (∀ b ∈ blocks 1 (sourceLines text), ¬(b.start ≤ i ∧ i ≤ b.stop)) → header? line = none) ∧
    (Manifest.ofText text file).errors =
      ((blocks 1 (sourceLines text)).filter fun b =>
        netBraces (linesBetween (sourceLines text) b.start b.stop) ≠ 0).map
        fun b => unterminated (b.start + 1) b.header := by
  have hspan := fun b (hb : b ∈ blocks 1 (sourceLines text)) => isSpanOf_of_mem_blocks hb
  refine ⟨hspan, ?_, ?_, ?_⟩
  · refine (pairwise_blocks 1 (sourceLines text)).imp_of_mem ?_
    intro a b ha hb hle
    have hstart := (hspan a ha).line_eq
    have hnext := (hspan b hb).line_eq
    have hlength := (hspan a ha).length_lines
    omega
  · intro i line hline houtside
    by_contra hheader
    obtain ⟨b, hb, hle, hlt⟩ := exists_block_of_header? 1 hline hheader
    have hstart := (hspan b hb).line_eq
    have hlength := (hspan b hb).length_lines
    exact houtside b hb ⟨by omega, by omega⟩
  · rw [errors_ofText]
    have hfilter : ((blocks 1 (sourceLines text)).filter fun b => netBraces b.lines ≠ 0) =
        (blocks 1 (sourceLines text)).filter fun b =>
          netBraces (linesBetween (sourceLines text) b.start b.stop) ≠ 0 := by
      apply List.filter_congr
      intro b hb
      rw [← (hspan b hb).lines_eq]
    rw [hfilter]
    apply List.map_congr_left
    intro b hb
    rw [(hspan b (List.mem_of_mem_filter hb)).line_eq]

example :
    (blocks 1 (sourceLines
      "a \x7b\nlocals \x7b\n\x7d\x7d\nlocals \x7b\x7d\nlocals \x7b".toList)).map
      (fun b => (b.start, b.stop)) = [(1, 2), (3, 3), (4, 4)] := by decide +kernel

end CodeAtlas.Terraform
