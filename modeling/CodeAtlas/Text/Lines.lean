/-!
# Source lines

A source text is cut at line feeds and nowhere else, so that line numbers agree
with rows of a syntax tree and with positions of a language server. A line feed
at the end opens no further line, and one carriage return at the end of a line
is not part of it.
-/

namespace CodeAtlas.Text

/-- The pieces between occurrences of `sep`: one more than there are of them. -/
def pieces (sep : Char) : List Char → List (List Char)
  | [] => [[]]
  | c :: cs =>
    if c = sep then [] :: pieces sep cs
    else match pieces sep cs with
      | [] => [[c]]
      | p :: ps => (c :: p) :: ps

theorem pieces_ne_nil (sep : Char) (cs : List Char) : pieces sep cs ≠ [] := by
  cases cs with
  | nil => simp [pieces]
  | cons c cs =>
    rw [pieces]
    split
    · simp
    · split <;> simp

/-- The pieces put together again, with `sep` between them. -/
def joinPieces (sep : List Char) : List (List Char) → List Char
  | [] => []
  | [p] => p
  | p :: q :: ps => p ++ sep ++ joinPieces sep (q :: ps)

theorem joinPieces_pieces (sep : Char) (cs : List Char) :
    joinPieces [sep] (pieces sep cs) = cs := by
  induction cs with
  | nil => rfl
  | cons c cs ih =>
    have hne := pieces_ne_nil sep cs
    rw [pieces]
    split
    next h =>
      cases hp : pieces sep cs with
      | nil => exact absurd hp hne
      | cons p ps => simp [joinPieces, ← hp, ih, h]
    next h =>
      cases hp : pieces sep cs with
      | nil => exact absurd hp hne
      | cons p ps =>
        rw [hp] at ih
        cases ps <;> simp_all [joinPieces]

/-- Without one carriage return at the end. -/
def dropReturn (line : List Char) : List Char :=
  if line.getLast? = some '\r' then line.dropLast else line

/-- The lines of a source text. -/
def sourceLines (cs : List Char) : List (List Char) :=
  let all := pieces '\n' cs
  let kept := if all.getLast? = some [] then all.dropLast else all
  kept.map dropReturn

/-- Line endings of files: a carriage return, alone or before a line feed, counts as a line feed. -/
def unifyLineEnds : List Char → List Char
  | [] => []
  | '\r' :: '\n' :: cs => '\n' :: unifyLineEnds cs
  | c :: cs => (if c = '\r' then '\n' else c) :: unifyLineEnds cs

end CodeAtlas.Text
