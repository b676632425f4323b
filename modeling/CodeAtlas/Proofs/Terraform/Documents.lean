import CodeAtlas.Proofs.Terraform.Stanzas

/-!
# Documents that are read back

A document is a list of stanzas, one below the other, with blank lines between
them. Reading it cuts it into lines, and into blocks by counting braces: each block
is the text of one stanza, since no brace stands in its labels and values. So every
stanza yields its own record, with the number of the line that opens it, and
nothing else is found.
-/

namespace CodeAtlas.Terraform

open CodeAtlas.Text

/-- The records that a stanza stands for, when its opening line has the given number. -/
def Stanza.records (s : Stanza) (file : String) (line : Int) : Records :=
  match s.header with
  | .resource type name =>
    { resources := [{
        type, name, file, line
        provider := s.provider type
        dependencies := statedDependencies s.text
        references := (mentions s.text).filter (· != type ++ "." ++ name) }] }
  | .dataSource type name =>
    { dataSources := [{
        type, name, file, line
        references := (mentions s.text).filter (· != "data." ++ type ++ "." ++ name) }] }
  | .moduleCall name =>
    { modules := [{
        name, file, line
        source := (s.field? "source").getD ""
        arguments := s.arguments
        references := mentions s.text }] }
  | .variableDecl name =>
    { variableDecls := [{
        name, file, line
        type := s.field? "type"
        default := s.field? "default"
        description := s.field? "description" }] }
  | .outputValue name =>
    { outputs := [{
        name, file, line
        value := (s.field? "value").getD ""
        description := s.field? "description"
        references := mentions s.text }] }
  | .provider name =>
    { providers := [{
        name, file, line
        aliasName := s.field? "alias"
        region := s.field? "region" }] }
  | .locals =>
    { locals := s.items.map fun i => {
        name := i.key
        file, line
        value := String.ofList i.value.text
        references := mentions i.value.text } }

/-- Stanzas with the numbers of their opening lines, when the first line of all has the given
number. -/
def placed (number : Int) : List Stanza → List (Int × Stanza)
  | [] => []
  | s :: rest =>
    let line := number + s.gap.length
    (line, s) :: placed (line + s.text.count '\n' + 1) rest

/-- The records of stanzas one below the other. -/
def documentRecords (file : String) (stanzas : List Stanza) : Records :=
  Records.join ((placed 1 stanzas).map fun p => p.2.records file p.1)

/-- Stanzas one below the other, each behind its blank lines. -/
def document (stanzas : List Stanza) : List Char :=
  joinPieces ['\n'] (stanzas.flatMap fun s => s.gap ++ [s.text])

/-- The lines of a document as they are read. -/
def documentLines (stanzas : List Stanza) : List (List Char) :=
  stanzas.flatMap fun s => s.gap.map dropReturn ++ pieces '\n' s.text

theorem not_mem_followingText (items : List Item) :
    '{' ∉ followingText items ∧ '}' ∉ followingText items := by
  have hitem : ∀ i : Item, '{' ∉ '\n' :: i.text ∧ '}' ∉ '\n' :: i.text := by
    intro i
    have hopen : '{' ∉ i.key.toList := i.ident.not_mem (by decide)
    have hclose : '}' ∉ i.key.toList := i.ident.not_mem (by decide)
    simp [Item.text, Item.assignmentText, hopen, hclose, i.value.no_brace]
  refine ⟨?_, ?_⟩ <;> intro hmem <;> obtain ⟨i, -, hi⟩ := List.mem_flatMap.mp hmem
  · exact (hitem i).1 hi
  · exact (hitem i).2 hi

namespace Stanza

variable (s : Stanza)

theorem not_mem_front : '{' ∉ s.header.front ∧ '}' ∉ s.header.front ∧ '\n' ∉ s.header.front := by
  have hfront := Header.not_mem_of_mem_front s.labels
  refine ⟨?_, ?_, ?_⟩ <;> intro hmem
  · exact hfront '{' hmem (by simp)
  · exact hfront '}' hmem (by simp)
  · exact hfront '\n' hmem (by simp)

theorem braceDelta_header : braceDelta s.header.text = 1 := by
  obtain ⟨hopen, hclose, -⟩ := s.not_mem_front
  simp [braceDelta, Header.text, List.count_append, List.count_eq_zero_of_not_mem hopen,
    List.count_eq_zero_of_not_mem hclose]

theorem braceDelta_text : braceDelta s.text = 0 := by
  obtain ⟨hopen, hclose, -⟩ := s.not_mem_front
  obtain ⟨hopen', hclose'⟩ := not_mem_followingText s.items
  simp [braceDelta, text_eq, List.count_append, List.count_eq_zero_of_not_mem hopen,
    List.count_eq_zero_of_not_mem hclose, List.count_eq_zero_of_not_mem hopen',
    List.count_eq_zero_of_not_mem hclose']

/-- Between its opening and its closing line a stanza has no braces. -/
theorem exists_pieces_text : ∃ inner,
    pieces '\n' s.text = s.header.text :: (inner ++ [['}']]) ∧
    ∀ line ∈ inner, '{' ∉ line ∧ '}' ∉ line := by
  have hline : '\n' ∉ s.header.text := by simp [Header.text, s.not_mem_front]
  have hlast : pieces '\n' s.text =
      pieces '\n' (s.header.text ++ followingText s.items) ++ [['}']] := by
    rw [text, ← List.append_assoc, pieces_append_cons]
    rfl
  have hbraces := not_mem_followingText s.items
  rcases endsLine_followingText s.items with hnil | ⟨after, hafter⟩
  · refine ⟨[], ?_, by simp⟩
    rw [hlast, hnil, List.append_nil, pieces_of_not_mem hline]
    rfl
  · refine ⟨pieces '\n' after, ?_, ?_⟩
    · rw [hlast, hafter, pieces_append hline]
      rfl
    · intro line hmem
      rw [hafter] at hbraces
      refine ⟨fun hc => hbraces.1 ?_, fun hc => hbraces.2 ?_⟩ <;>
        exact List.mem_cons_of_mem _ (mem_of_mem_pieces hmem hc)

theorem noLineReturn_text : NoLineReturn s.text := by
  have hheader : NoLineReturn s.header.text := by
    apply noLineReturn_of_getLast?
    · simp [Header.text, s.not_mem_front]
    · simp [Header.text]
  have hitems : NoLineReturn (followingText s.items) := by
    apply NoLineReturn.flatMap
    intro i _
    have hkey : '\r' ∉ i.key.toList := i.ident.not_mem (by decide)
    have hopening : NoLineReturn ('\n' :: ' ' :: ' ' :: (i.key.toList ++ [' ', '=', ' '])) :=
      noLineReturn_of_not_mem (by simp [hkey])
    simpa [Item.text, Item.assignmentText] using hopening.append i.value.noLineReturn
  exact hheader.append (hitems.append (noLineReturn_of_not_mem (by decide)))

/-- Lines without braces do not end a block that is open. -/
theorem splitBlock_inner {inner : List (List Char)}
    (h : ∀ line ∈ inner, '{' ∉ line ∧ '}' ∉ line) (rest : List (List Char)) :
    splitBlock 1 true (inner ++ ['}'] :: rest) = (inner ++ [['}']], rest) := by
  induction inner with
  | nil =>
    have hdelta : braceDelta ['}'] = -1 := by decide
    simp [splitBlock, hdelta]
  | cons line inner ih =>
    have ih := ih fun l hl => h l (List.mem_cons_of_mem _ hl)
    obtain ⟨hopen, hclose⟩ := h line List.mem_cons_self
    have hdelta : braceDelta line = 0 := by
      simp [braceDelta, List.count_eq_zero_of_not_mem hopen,
        List.count_eq_zero_of_not_mem hclose]
    simp [splitBlock, hdelta, ih]

theorem cutBlock_pieces (rest : List (List Char)) :
    cutBlock (pieces '\n' s.text ++ rest) = (pieces '\n' s.text, rest) := by
  obtain ⟨inner, hpieces, hinner⟩ := s.exists_pieces_text
  have hopened : s.header.text.contains '{' = true := by simp [Header.text]
  rw [hpieces, cutBlock, List.cons_append, List.append_assoc, List.singleton_append, splitBlock,
    s.braceDelta_header, hopened]
  simp [splitBlock_inner hinner]

/-- The lines of a stanza are read as one block. -/
theorem blocks_pieces (number : Int) (rest : List (List Char)) :
    blocks number (pieces '\n' s.text ++ rest) =
      ⟨s.header, pieces '\n' s.text, number⟩ ::
        blocks (number + s.text.count '\n' + 1) rest := by
  have hcut := s.cutBlock_pieces rest
  have hlength := length_pieces '\n' s.text
  obtain ⟨inner, hpieces, -⟩ := s.exists_pieces_text
  rw [hpieces] at hcut hlength ⊢
  rw [List.cons_append] at hcut ⊢
  have hnumber : number + ((s.text.count '\n' + 1 : Nat) : Int) =
      number + s.text.count '\n' + 1 := by omega
  rw [blocks, Header.header?_text s.labels]
  simp only [hcut, hlength, hnumber]

theorem records_block (file : String) (line : Int) :
    Block.records file ⟨s.header, pieces '\n' s.text, line⟩ = s.records file line := by
  have htext : Block.text ⟨s.header, pieces '\n' s.text, line⟩ = s.text :=
    joinPieces_pieces '\n' s.text
  have hclosed : Block.isClosed ⟨s.header, pieces '\n' s.text, line⟩ = true := by
    rw [Block.isClosed, htext, s.braceDelta_text]
    rfl
  rw [Block.records, hclosed, Block.contents, htext, records]
  cases s.header <;>
    simp [attribute?_text, providerOf_text, moduleArguments_text, entries_localValues_text,
      Item.pair]

theorem errors_records (file : String) (line : Int) : (s.records file line).errors = [] := by
  rw [records]
  cases s.header <;> rfl

end Stanza

theorem header?_of_blank {line : List Char} (h : ∀ c ∈ line, isBlank c = true) :
    header? line = none := by
  have htrim : trimLeft line = [] := List.dropWhile_eq_nil_iff.mpr h
  rw [header?, htrim]
  rfl

theorem mem_dropReturn {line : List Char} {c : Char} (h : c ∈ dropReturn line) : c ∈ line := by
  rw [dropReturn] at h
  split at h
  · exact List.dropLast_subset line h
  · exact h

theorem blocks_blank {gap : List (List Char)} (h : ∀ line ∈ gap, ∀ c ∈ line, isBlank c = true)
    (number : Int) (rest : List (List Char)) :
    blocks number (gap ++ rest) = blocks (number + gap.length) rest := by
  induction gap generalizing number with
  | nil => simp
  | cons line gap ih =>
    have hnone := header?_of_blank (h line List.mem_cons_self)
    have ih := ih (fun l hl => h l (List.mem_cons_of_mem _ hl)) (number + 1)
    have hnumber : number + ((line :: gap).length : Int) = number + 1 + gap.length := by
      rw [List.length_cons]
      omega
    rw [List.cons_append, blocks, hnone, hnumber]
    exact ih

theorem documentLines_cons (s : Stanza) (stanzas : List Stanza) :
    documentLines (s :: stanzas) =
      s.gap.map dropReturn ++ (pieces '\n' s.text ++ documentLines stanzas) := by
  simp [documentLines]

/-- One stanza after another, the blocks are read as what they stand for. -/
theorem records_blocks_documentLines (file : String) (number : Int) (stanzas : List Stanza) :
    (blocks number (documentLines stanzas)).map (Block.records file) =
      (placed number stanzas).map fun p => p.2.records file p.1 := by
  induction stanzas generalizing number with
  | nil =>
    rw [documentLines, List.flatMap_nil, blocks]
    rfl
  | cons s stanzas ih =>
    have hblank : ∀ line ∈ s.gap.map dropReturn, ∀ c ∈ line, isBlank c = true := by
      intro line hline c hc
      obtain ⟨l, hl, rfl⟩ := List.mem_map.mp hline
      exact (s.blank l hl c (mem_dropReturn hc)).1
    rw [documentLines_cons, blocks_blank hblank, s.blocks_pieces, List.map_cons, s.records_block,
      ih, List.length_map]
    rfl

/-- A stanza opens on the line of its number. -/
theorem getElem?_of_mem_placed (front : List (List Char)) {number : Int} {stanzas : List Stanza}
    (hnumber : number = front.length + 1) {p : Int × Stanza} (hp : p ∈ placed number stanzas) :
    ∃ i : Nat, p.1 = i + 1 ∧ (front ++ documentLines stanzas)[i]? = some p.2.header.text := by
  induction stanzas generalizing front number with
  | nil => cases hp
  | cons s stanzas ih =>
    rw [documentLines_cons]
    rw [placed, List.mem_cons] at hp
    rcases hp with rfl | hp
    · obtain ⟨inner, hpieces, -⟩ := s.exists_pieces_text
      refine ⟨front.length + s.gap.length, ?_, ?_⟩
      · simp only [hnumber]
        omega
      · rw [hpieces, ← List.append_assoc, List.getElem?_append_right (by simp)]
        simp
    · have hlength := length_pieces '\n' s.text
      obtain ⟨i, hi, hline⟩ := ih (front ++ (s.gap.map dropReturn ++ pieces '\n' s.text))
        (by simp only [hnumber, List.length_append, List.length_map, hlength]; omega) hp
      refine ⟨i, hi, ?_⟩
      rwa [List.append_assoc, List.append_assoc] at hline

theorem map_dropReturn_pieces_document {stanzas : List Stanza} (h : stanzas ≠ []) :
    (pieces '\n' (document stanzas)).map dropReturn = documentLines stanzas := by
  have hne : (stanzas.flatMap fun s => s.gap ++ [s.text]) ≠ [] := by
    obtain ⟨s, stanzas, rfl⟩ := List.exists_cons_of_ne_nil h
    simp
  have hgap : ∀ s : Stanza, s.gap.flatMap (pieces '\n') = s.gap := by
    intro s
    have hpieces : ∀ line ∈ s.gap, pieces '\n' line = [line] := by
      intro line hline
      exact pieces_of_not_mem fun hmem => (s.blank line hline '\n' hmem).2 rfl
    rw [List.flatMap_congr hpieces, List.flatMap_singleton']
  rw [document, pieces_joinPieces hne, documentLines, List.flatMap_assoc, List.map_flatMap]
  congr 1
  funext s
  simp [hgap, map_dropReturn_pieces s.noLineReturn_text]

theorem getLast?_documentLines {stanzas : List Stanza} (h : stanzas ≠ []) :
    (documentLines stanzas).getLast? = some ['}'] := by
  obtain rfl | ⟨earlier, s, rfl⟩ := List.eq_nil_or_concat stanzas
  · exact absurd rfl h
  · obtain ⟨inner, hpieces, -⟩ := s.exists_pieces_text
    simp [documentLines, hpieces, getLast?_enclosed]

theorem sourceLines_document {stanzas : List Stanza} (h : stanzas ≠ []) :
    sourceLines (document stanzas) = documentLines stanzas := by
  have hlines := map_dropReturn_pieces_document h
  have hlast : (pieces '\n' (document stanzas)).getLast? ≠ some [] := by
    intro hempty
    have hread := getLast?_documentLines h
    rw [← hlines, List.getLast?_map, hempty] at hread
    cases hread
  rw [sourceLines_of_getLast? hlast, hlines]

theorem errors_join_records (file : String) (ps : List (Int × Stanza)) :
    (Records.join (ps.map fun p => p.2.records file p.1)).errors = [] := by
  rw [Records.errors_join, List.flatMap_map, List.flatMap_eq_nil_iff]
  exact fun p _ => p.2.errors_records file p.1

/-- Reading a document gives the records of its stanzas and no problem, whether or not its last
line is ended. The number of a stanza is that of the line which opens it. -/
theorem ofText_document (stanzas : List Stanza) (file : String) :
    Manifest.ofText (document stanzas) file = { documentRecords file stanzas with file } ∧
    Manifest.ofText (document stanzas ++ ['\n']) file =
      { documentRecords file stanzas with file } ∧
    (documentRecords file stanzas).errors = [] ∧
    ∀ p ∈ placed 1 stanzas, ∃ i : Nat,
      p.1 = i + 1 ∧ (sourceLines (document stanzas))[i]? = some p.2.header.text := by
  have hread := records_blocks_documentLines file 1 stanzas
  refine ⟨?_, ?_, errors_join_records file _, ?_⟩
  · rw [Manifest.ofText, documentRecords, ← hread]
    by_cases h : stanzas = []
    · rw [h]
      rfl
    · rw [sourceLines_document h]
  · rw [Manifest.ofText, documentRecords, sourceLines_append_newline, ← hread]
    by_cases h : stanzas = []
    · -- the one line of the text is empty
      rw [h]
      simp [document, documentLines, joinPieces, pieces, dropReturn, blocks, header?_of_blank]
    · rw [map_dropReturn_pieces_document h]
  · intro p hp
    have hne : stanzas ≠ [] := by
      rintro rfl
      cases hp
    rw [sourceLines_document hne]
    exact getElem?_of_mem_placed [] rfl hp

end CodeAtlas.Terraform
