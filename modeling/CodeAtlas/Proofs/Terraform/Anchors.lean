import CodeAtlas.Terraform.Manifest
import Mathlib.Data.List.Basic

/-!
# Named lines and read lines agree

Blocks are found by reading all lines, where the search goes on behind the last line
of each block, or at lines that are named, where each block is cut out by itself.
What a block holds depends on nothing in front of its opening line, so both ways
give the same block for the same line. Named lines on which no block opens change
nothing.
-/

namespace CodeAtlas.Terraform

open CodeAtlas.Text

/-- The anchors name the opening lines of the blocks, in order and under any names. In between are
any further ones, for lines of the file that open no block. -/
inductive Anchored (lines : List (List Char)) : List Block → List (String × Int) → Prop
  | nil : Anchored lines [] []
  | opening (name : String) (b : Block) {bs : List Block} {anchors : List (String × Int)}
    (h : Anchored lines bs anchors) : Anchored lines (b :: bs) ((name, b.line) :: anchors)
  | further (name : String) {i : Nat} {line : List Char} {bs : List Block}
    {anchors : List (String × Int)} (hline : lines[i]? = some line)
    (hnone : header? line = none) (h : Anchored lines bs anchors) :
    Anchored lines bs ((name, (i : Int) + 1) :: anchors)

/-- A block that is found by reading is the one that its own line names. -/
theorem blockAt?_of_mem_blocks {number : Int} (front : List (List Char))
    {rest : List (List Char)} {b : Block} (hnumber : number = front.length + 1)
    (hb : b ∈ blocks number rest) :
    blockAt? (front ++ rest) b.line = some b ∧
      1 ≤ b.line ∧ b.line ≤ (front ++ rest).length := by
  induction number, rest using blocks.induct generalizing front with
  | case1 number =>
    rw [blocks] at hb
    cases hb
  | case2 number line rest hheader ih =>
    rw [blocks, hheader] at hb
    have hfront := ih (front ++ [line]) (by simp [hnumber]) hb
    rwa [List.append_assoc, List.singleton_append] at hfront
  | case3 number line rest header hheader cut =>
    rename_i ih
    rw [blocks, hheader] at hb
    rcases List.mem_cons.mp hb with rfl | hb
    · -- the lines in front of the opening line are dropped
      have hindex : (number - 1).toNat = front.length := by omega
      refine ⟨?_, by simp only [hnumber]; omega, ?_⟩
      · simp [blockAt?, hindex, hheader]
      · simp only [hnumber, List.length_append, List.length_cons]
        omega
    · have happend : cut.1 ++ cut.2 = line :: rest := splitBlock_append 0 false (line :: rest)
      have hfront := ih (front ++ cut.1) (by rw [hnumber, List.length_append]; omega) hb
      rwa [List.append_assoc, happend] at hfront

theorem anchorRecords_of_mem_blocks {lines : List (List Char)} {b : Block} (file name : String)
    (hb : b ∈ blocks 1 lines) : anchorRecords lines file name b.line = b.records file := by
  obtain ⟨hblock, hfirst, hlast⟩ := blockAt?_of_mem_blocks [] (by simp) hb
  have hblock : blockAt? lines b.line = some b := hblock
  rw [anchorRecords, if_pos ⟨hfirst, hlast⟩, hblock]

theorem anchorRecords_of_header?_eq_none {lines : List (List Char)} {i : Nat} {line : List Char}
    (file name : String) (hline : lines[i]? = some line) (hnone : header? line = none) :
    anchorRecords lines file name (i + 1) = {} := by
  have hlt : i < lines.length := (List.getElem?_eq_some_iff.mp hline).1
  have hdrop : lines.drop i = line :: lines.drop (i + 1) := by
    rw [List.drop_eq_getElem?_toList_append, hline]
    rfl
  have hblock : blockAt? lines (i + 1) = none := by
    simp [blockAt?, hdrop, hnone]
  rw [anchorRecords, if_pos (by omega), hblock]

/-- Each anchor of an opening line adds the records of its block, and the others add none. -/
theorem Anchored.join_anchorRecords {lines : List (List Char)} {bs : List Block}
    {anchors : List (String × Int)} (file : String) (h : Anchored lines bs anchors)
    (hbs : ∀ b ∈ bs, b ∈ blocks 1 lines) :
    Records.join (anchors.map fun a => anchorRecords lines file a.1 a.2) =
      Records.join (bs.map (Block.records file)) := by
  induction h with
  | nil => rfl
  | opening name b _ ih =>
    have hrest := ih fun c hc => hbs c (List.mem_cons_of_mem _ hc)
    have hfirst := anchorRecords_of_mem_blocks file name (hbs b List.mem_cons_self)
    simp only [List.map_cons, Records.join, List.foldr_cons] at hrest ⊢
    rw [hfirst, hrest]
  | further name hline hnone _ ih =>
    have hnothing := anchorRecords_of_header?_eq_none file name hline hnone
    have hrest := ih hbs
    simp only [List.map_cons, Records.join, List.foldr_cons] at hrest ⊢
    rw [hnothing, hrest]
    rfl

/-- Reading the blocks at named lines gives what reading the text gives, errors included, if the
names are for the lines on which the blocks open and otherwise for lines that open none. -/
theorem ofAnchors_eq_ofText (text : List Char) (file : String) {anchors : List (String × Int)}
    (h : Anchored (sourceLines text) (blocks 1 (sourceLines text)) anchors) :
    Manifest.ofAnchors text file anchors = Manifest.ofText text file := by
  have hjoin := h.join_anchorRecords file fun b hb => hb
  simp only [Manifest.ofAnchors, Manifest.ofText, hjoin]

/-- A block on one line, and one that is never closed and holds a line that looks like an opening
one. -/
def unclosedLines : List (List Char) :=
  ["variable \"v\" \x7b\x7d".toList, "module \"m\" \x7b".toList, "  source = \"./m\"".toList,
    "  locals \x7b".toList, "  \x7d".toList]

theorem ofAnchors_unclosedLines :
    Anchored unclosedLines (blocks 1 unclosedLines)
      [("a", 3), ("v", 1), ("b", 5), ("m", 2), ("c", 3)] ∧
    Manifest.ofAnchors (joinPieces ['\n'] unclosedLines) "main.tf"
        [("a", 3), ("v", 1), ("b", 5), ("m", 2), ("c", 3)] =
      Manifest.ofText (joinPieces ['\n'] unclosedLines) "main.tf" := by
  have hlines : sourceLines (joinPieces ['\n'] unclosedLines) = unclosedLines := by decide +kernel
  have hblocks : blocks 1 unclosedLines =
      [⟨.variableDecl "v", unclosedLines.take 1, 1⟩,
        ⟨.moduleCall "m", unclosedLines.drop 1, 2⟩] := by decide +kernel
  have hanchored : Anchored unclosedLines (blocks 1 unclosedLines)
      [("a", 3), ("v", 1), ("b", 5), ("m", 2), ("c", 3)] := by
    rw [hblocks]
    refine .further "a" (i := 2) (by rfl) (by decide +kernel) (.opening "v" _ ?_)
    refine .further "b" (i := 4) (by rfl) (by decide +kernel) (.opening "m" _ ?_)
    exact .further "c" (i := 2) (by rfl) (by decide +kernel) .nil
  refine ⟨hanchored, ofAnchors_eq_ofText _ "main.tf" ?_⟩
  rwa [hlines]

end CodeAtlas.Terraform
