import CodeAtlas.Proofs.Text
import CodeAtlas.Tree.Source

/-!
# Documentation comments read back

A documentation comment is written with its delimiters on lines of their own and a star
in front of every line of its text. Cleaning takes away what the writing has added and
nothing else: stars, delimiters and empty lines of the text itself stay, since only one
star is taken from a line and only the last delimiter ends the comment.
-/

namespace CodeAtlas.Tree

open CodeAtlas.Text

/-- What stands in front of a line. -/
def gutter : List Char := " * ".toList

/-- A documentation comment with a text. -/
def docComment (lines : List (List Char)) : List Char :=
  joinPieces ['\n'] ("/**".toList :: (lines.map (gutter ++ ·) ++ [" */".toList]))

/-- Lines that can be told apart and have no blanks at their ends. The first and the last one are
not empty. -/
structure DocText (lines : List (List Char)) : Prop where
  trimmed : ∀ l ∈ lines, trim l = l
  unbroken : ∀ l ∈ lines, ∀ c ∈ l, isLineBreak c = false
  first : lines.head? ≠ some []
  last : lines.getLast? ≠ some []

/-- The star of the gutter is taken, and one that the line starts with is not. -/
theorem cleanLine_gutter {l : List Char} (h : trim l = l) : cleanLine (gutter ++ l) = l := by
  by_cases hl : l = []
  · rw [hl]
    decide
  · have hsolid := solid_of_trim_eq h hl
    have hspace : ∀ c ∈ [' '], isBlank c = true := List.forall_mem_singleton.mpr (by decide)
    have hstar : Solid (['*'] ++ ([' '] ++ l)) := by
      refine solid_between [' '] (by simp) ?_ hsolid
      rintro c ⟨⟩
      decide
    have hline : trim (gutter ++ l) = '*' :: ' ' :: l := by
      simpa [gutter] using hstar.trim_append (e := []) hspace (by simp)
    have hrest : trim (' ' :: l) = l := by
      simpa using hsolid.trim_append (e := []) hspace (by simp)
    rw [cleanLine, hline]
    exact hrest

theorem isLineBreak_gutter : ∀ c ∈ gutter, isLineBreak c = false := by
  have hall : gutter.all (fun c => !isLineBreak c) = true := by decide
  simpa [List.all_eq_true] using hall

/-- The delimiters around a comment are taken, whatever stands between them. -/
theorem cleanDocComment_enclosed (body : List Char) :
    cleanDocComment ("/**".toList ++ (body ++ "*/".toList)) =
      trim (joinPieces ['\n'] ((displayLines body).map cleanLine)) := by
  have hsolid : Solid ("/**".toList ++ (body ++ "*/".toList)) := by
    refine solid_between body (by simp) ?_ (solid_enclosed (a := '*') (b := '/') ?_ ?_ [])
    · rintro c ⟨⟩
      decide
    · decide
    · decide
  have hfront : "/**".toList.isPrefixOf ("/**".toList ++ (body ++ "*/".toList)) = true :=
    List.isPrefixOf_iff_prefix.mpr (List.prefix_append _ _)
  have hback : "*/".toList.isSuffixOf (body ++ "*/".toList) = true :=
    List.isSuffixOf_iff_suffix.mpr (List.suffix_append _ _)
  have hdrop : ("/**".toList ++ (body ++ "*/".toList)).drop 3 = body ++ "*/".toList := by simp
  have htake : (body ++ "*/".toList).take ((body ++ "*/".toList).length - 2) = body := by simp
  rw [cleanDocComment, hsolid.trim]
  simp only [hfront, if_true, hdrop, hback, htake]

/-- The lines between the delimiters: nothing behind the first one, and a blank in front of the last
one. -/
def bodyLines (lines : List (List Char)) : List (List Char) :=
  [] :: (lines.map (gutter ++ ·) ++ [[' ']])

theorem docComment_eq (lines : List (List Char)) :
    docComment lines = "/**".toList ++ (joinPieces ['\n'] (bodyLines lines) ++ "*/".toList) := by
  simp [docComment, bodyLines, joinPieces_cons]

theorem getLast?_bodyLines (lines : List (List Char)) :
    (bodyLines lines).getLast? = some [' '] := by
  rw [bodyLines, ← List.cons_append, List.getLast?_concat]

namespace DocText

variable {lines : List (List Char)} (h : DocText lines)

include h

theorem unbroken_bodyLines : ∀ l ∈ bodyLines lines, ∀ c ∈ l, isLineBreak c = false := by
  intro l hl c hc
  rcases List.mem_cons.mp hl with rfl | hl
  · cases hc
  rcases List.mem_append.mp hl with hl | hl
  · obtain ⟨k, hk, rfl⟩ := List.mem_map.mp hl
    rcases List.mem_append.mp hc with hc | hc
    · exact isLineBreak_gutter c hc
    · exact h.unbroken k hk c hc
  · rw [List.mem_singleton.mp hl, List.mem_singleton] at hc
    rw [hc]
    decide

theorem map_cleanLine_bodyLines : (bodyLines lines).map cleanLine = [] :: (lines ++ [[]]) := by
  have hlines : (lines.map (gutter ++ ·)).map cleanLine = lines := by
    rw [List.map_map]
    exact (List.map_congr_left fun l hl => cleanLine_gutter (h.trimmed l hl)).trans
      (List.map_id' lines)
  rw [bodyLines, List.map_cons, List.map_append, hlines]
  rfl

theorem solid (hne : lines ≠ []) : Solid (joinPieces ['\n'] lines) := by
  have hline : ∀ l ∈ lines, l ≠ [] → Solid l := fun l hl => solid_of_trim_eq (h.trimmed l hl)
  obtain ⟨first, rest, rfl⟩ := List.exists_cons_of_ne_nil hne
  have hfirst : Solid first := hline first List.mem_cons_self (by simpa using h.first)
  rcases List.eq_nil_or_concat rest with rfl | ⟨middle, last, rfl⟩
  · rwa [joinPieces]
  · have hlast : last ≠ [] := by
      have hlast := h.last
      rw [List.concat_eq_append, ← List.cons_append, List.getLast?_concat] at hlast
      simpa using hlast
    rw [List.concat_eq_append] at hline ⊢
    exact solid_joinPieces ['\n'] hfirst (hline last (by simp) hlast) middle

/-- The line feeds next to the delimiters are no part of the text. -/
theorem trim_joinPieces : trim (joinPieces ['\n'] ([] :: (lines ++ [[]]))) =
    joinPieces ['\n'] lines := by
  by_cases hne : lines = []
  · rw [hne]
    decide
  · have hjoined : joinPieces ['\n'] ([] :: (lines ++ [[]])) =
        ['\n'] ++ (joinPieces ['\n'] lines ++ ['\n']) := by
      obtain ⟨first, rest, rfl⟩ := List.exists_cons_of_ne_nil hne
      simp [joinPieces_cons]
    have hfeed : ∀ c ∈ ['\n'], isBlank c = true := List.forall_mem_singleton.mpr (by decide)
    rw [hjoined]
    exact (h.solid hne).trim_append hfeed hfeed

end DocText

/-- Cleaning a documentation comment gives its text back. -/
theorem cleanDocComment_docComment {lines : List (List Char)} (h : DocText lines) :
    cleanDocComment (docComment lines) = joinPieces ['\n'] lines := by
  have hlast : (bodyLines lines).getLast? ≠ some [] := by simp [getLast?_bodyLines]
  rw [docComment_eq, cleanDocComment_enclosed, displayLines_joinPieces h.unbroken_bodyLines hlast,
    h.map_cleanLine_bodyLines, h.trim_joinPieces]

def starredLines : List (List Char) := ["* a".toList, [], "/** b */".toList]

/-- Lines with a star, with delimiters and with nothing at all are kept. -/
theorem cleanDocComment_starredLines :
    DocText starredLines ∧ docComment starredLines = "/**\n * * a\n * \n * /** b */\n */".toList ∧
    cleanDocComment (docComment starredLines) = "* a\n\n/** b */".toList := by
  have hunbroken : starredLines.all (fun l => l.all fun c => !isLineBreak c) = true := by decide
  have htext : DocText starredLines :=
    ⟨by decide, by simpa [List.all_eq_true] using hunbroken, by decide, by decide⟩
  exact ⟨htext, by decide, cleanDocComment_docComment htext⟩

end CodeAtlas.Tree
