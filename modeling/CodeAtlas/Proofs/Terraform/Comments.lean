import CodeAtlas.Proofs.Terraform.Stanzas

/-!
# Comments between attributes

The reader of attributes knows comments only behind a value. A line that holds
nothing but a comment is a line without an assignment to it, and so the brackets of
the comment are counted. A comment that closes as many brackets as it opens, or
more, is passed over; any other hides the attributes behind it.
-/

namespace CodeAtlas.Terraform

open CodeAtlas.Text

/-- A text on one line without brackets and comments. It may hold strings but does not start with
one, and no string in it runs on past a backslash at the end. -/
structure IsUnquoted (t : List Char) : Prop where
  chars : ∀ c ∈ t, c ∉ ['\n', '#', '[', ']', '(', ')', '{', '}']
  no_slashes : ¬['/', '/'] <:+: t
  no_escape : t.getLast? ≠ some '\\' ∨ '"' ∉ t
  head : ∀ c, t.head? = some c → c ≠ '"' ∧ isBlank c = false

/-- A value on one line: a text in quotes with whatever stands behind it, or an unquoted text with
any blanks at its end. -/
inductive LineValue
  | quoted (content after : List Char) (h : ∀ c ∈ content, c ∉ ['"', '\\', '\n'])
    (hafter : '\n' ∉ after)
  | unquoted (content : List Char) (h : IsUnquoted content)

namespace LineValue

def text : LineValue → List Char
  | quoted t after _ _ => '"' :: (t ++ '"' :: after)
  | unquoted t _ => t

/-- The value as it is read. -/
def read : LineValue → List Char
  | quoted t _ _ _ => '"' :: (t ++ ['"'])
  | unquoted t _ => trim t

end LineValue

/-- A line with one attribute, with blanks in front of its key and around the equals sign. -/
structure AttributeLine where
  lead : List Char
  key : String
  left : List Char
  right : List Char
  value : LineValue
  ident : IsIdentifier key.toList
  blank_lead : ∀ c ∈ lead, isBlank c = true ∧ c ≠ '\n'
  blank_left : ∀ c ∈ left, isBlank c = true ∧ c ≠ '\n'
  blank_right : ∀ c ∈ right, isBlank c = true ∧ c ≠ '\n'
  one_sign : (right ++ value.text).head? ≠ some '='

namespace AttributeLine

/-- What stands before the value. -/
def opening (l : AttributeLine) : List Char :=
  l.lead ++ (l.key.toList ++ (l.left ++ '=' :: l.right))

def text (l : AttributeLine) : List Char := l.opening ++ l.value.text

/-- The key with the value as it is read. -/
def pair (l : AttributeLine) : String × String := (l.key, String.ofList l.value.read)

/-- Lines one below the other, each with its end. -/
def document (lines : List AttributeLine) : List Char := lines.flatMap fun l => l.text ++ ['\n']

end AttributeLine

namespace LineValue

theorem newline_not_mem (v : LineValue) : '\n' ∉ v.text := by
  cases v with
  | quoted t after h hafter =>
    have ht : '\n' ∉ t := fun hmem => h '\n' hmem (by simp)
    simp [text, ht, hafter]
  | unquoted t h => exact fun hmem => h.chars '\n' hmem (by simp)

theorem head (v : LineValue) : ∀ c, v.text.head? = some c → isBlank c = false := by
  intro c hc
  cases v with
  | quoted t after h hafter =>
    rw [← Option.some.inj hc]
    decide
  | unquoted t h => exact (h.head c hc).2

/-- A value is read from its line, and what is left of the text starts on the line. -/
theorem capture_append (v : LineValue) (rest : List Char) :
    (capture (v.text ++ '\n' :: rest)).1 = v.read ∧
      nextLine ((v.text ++ '\n' :: rest).drop (capture (v.text ++ '\n' :: rest)).2) = rest := by
  have hnext : ∀ t : List Char, '\n' ∉ t → nextLine (t ++ '\n' :: rest) = rest := by
    intro t ht
    rw [nextLine, dropWhile_bne_append ht]
    rfl
  cases v with
  | quoted t after h hafter =>
    have hchars : ∀ c ∈ t, c ≠ '"' ∧ c ≠ '\\' := by
      intro c hc
      have hc := h c hc
      simp only [List.mem_cons, List.not_mem_nil, or_false, not_or] at hc
      exact ⟨hc.1, hc.2.1⟩
    have hlength := quotedLength_append hchars (after ++ '\n' :: rest)
    have hcut : t ++ '"' :: (after ++ '\n' :: rest) = (t ++ ['"']) ++ (after ++ '\n' :: rest) := by
      simp
    have htake : (t ++ '"' :: (after ++ '\n' :: rest)).take (t.length + 1) = t ++ ['"'] := by
      rw [hcut]
      exact List.take_left' (by simp)
    have hdrop : (t ++ '"' :: (after ++ '\n' :: rest)).drop (t.length + 1) =
        after ++ '\n' :: rest := by
      rw [hcut]
      exact List.drop_left' (by simp)
    have hread : capture (text (quoted t after h hafter) ++ '\n' :: rest) =
        ('"' :: (t ++ ['"']), t.length + 2) := by
      simp only [text, List.cons_append, List.append_assoc, capture, hlength]
      rw [List.take_succ_cons, htake]
    have hbehind : (text (quoted t after h hafter) ++ '\n' :: rest).drop (t.length + 2) =
        after ++ '\n' :: rest := by
      simp only [text, List.cons_append, List.append_assoc]
      rw [List.drop_succ_cons, hdrop]
    rw [hread]
    exact ⟨rfl, by rw [hbehind, hnext after hafter]⟩
  | unquoted t h =>
    have hlength : plainLength 0 false (t ++ '\n' :: rest) = t.length :=
      plainLength_zero_of_line h.chars h.no_slashes
        (h.no_escape.imp_right fun hquote => ⟨rfl, hquote⟩) (.inr ⟨rest, rfl⟩)
    have hquote : (t ++ '\n' :: rest).head? ≠ some '"' := by
      cases t with
      | nil => simp
      | cons c t => simpa using (h.head c rfl).1
    rw [text, capture_of_plainLength t _ hquote hlength]
    exact ⟨rfl, by rw [List.drop_left]; exact hnext [] (by simp)⟩

end LineValue

/-- A line with an attribute is read as that attribute, whatever follows. -/
theorem AttributeLine.assignmentsAt (l : AttributeLine) (rest : List Char) :
    assignmentsAt 0 (l.text ++ '\n' :: rest) = l.pair :: Terraform.assignmentsAt 0 rest := by
  have hopening : '\n' ∉ l.opening := by
    have hkey : '\n' ∉ l.key.toList := l.ident.not_mem (by decide)
    have hlead : '\n' ∉ l.lead := fun hmem => (l.blank_lead _ hmem).2 rfl
    have hleft : '\n' ∉ l.left := fun hmem => (l.blank_left _ hmem).2 rfl
    have hright : '\n' ∉ l.right := fun hmem => (l.blank_right _ hmem).2 rfl
    simp [opening, hkey, hlead, hleft, hright]
  have hfirst : (l.value.text ++ '\n' :: rest).takeWhile (· != '\n') = l.value.text :=
    takeWhile_bne_append l.value.newline_not_mem rest
  have hassign : assignment? (l.opening ++ l.value.text) = some (l.key, l.value.text) := by
    have h := assignment?_append (fun c hc => (l.blank_lead c hc).1) l.ident
      (fun c hc => (l.blank_left c hc).1) (fun c hc => (l.blank_right c hc).1) l.value.head
      l.one_sign
    simpa [opening] using h
  obtain ⟨hread, hnext⟩ := l.value.capture_append rest
  rw [text, List.append_assoc, assignmentsAt_opening _ hopening (by rw [hfirst]; exact hassign),
    hread, hnext]
  rfl

/-- Lines with attributes are read one by one, and then what follows them. -/
theorem assignmentsAt_document (lines : List AttributeLine) (rest : List Char) :
    assignmentsAt 0 (AttributeLine.document lines ++ rest) =
      lines.map AttributeLine.pair ++ assignmentsAt 0 rest := by
  induction lines with
  | nil => rfl
  | cons l lines ih =>
    have hcons : AttributeLine.document (l :: lines) ++ rest =
        l.text ++ '\n' :: (AttributeLine.document lines ++ rest) := by
      simp [AttributeLine.document]
    rw [hcons, l.assignmentsAt, ih]
    rfl

theorem assignment?_of_startsComment {line : List Char} (h : startsComment line = true) :
    assignment? line = none := by
  cases line with
  | nil => cases h
  | cons c line =>
    have hmark : c = '#' ∨ c = '/' := by
      by_contra hne
      rw [not_or] at hne
      simp [startsComment, hne] at h
    rcases hmark with rfl | rfl <;> rfl

/-- A line with nothing but a comment is passed over, but its brackets are counted. -/
theorem assignmentsAt_comment {comment : List Char} (hmark : startsComment comment = true)
    (hline : '\n' ∉ comment) (depth : Nat) (rest : List Char) :
    assignmentsAt depth (comment ++ '\n' :: rest) =
      assignmentsAt (depth + bracketDelta comment).toNat rest := by
  have hfirst := takeWhile_bne_append hline rest
  have hnext : nextLine (comment ++ '\n' :: rest) = rest := by
    rw [nextLine, dropWhile_bne_append hline]
    rfl
  rw [assignmentsAt_of_none (by simp) fun _ => hfirst.symm ▸ assignment?_of_startsComment hmark,
    hfirst, hnext]

/-- Inside of brackets a line with an attribute is not read. -/
theorem assignmentsAt_succ_hides (depth : Nat) :
    assignmentsAt (depth + 1) "a=".toList = [] ∧
      assignmentsAt 0 "a=".toList = [("a", "")] := by
  refine ⟨?_, by decide +kernel⟩
  have hlist : "a=".toList = ['a', '='] := by decide
  rw [hlist, assignmentsAt]
  simp [nextLine, assignmentsAt]

/-- Behind lines with attributes, a line with a comment is passed over whatever follows, exactly if
the comment opens no more brackets than it closes. Otherwise what follows is read as if it stood
inside of the brackets that the comment leaves open. -/
theorem assignments_past_comment (lines : List AttributeLine) {comment : List Char}
    (hmark : startsComment comment = true) (hline : '\n' ∉ comment) :
    ((∀ rest, assignments (AttributeLine.document lines ++ (comment ++ '\n' :: rest)) =
        assignments (AttributeLine.document lines ++ rest)) ↔ bracketDelta comment ≤ 0) ∧
    ∀ rest, assignments (AttributeLine.document lines ++ (comment ++ '\n' :: rest)) =
      lines.map AttributeLine.pair ++ assignmentsAt (bracketDelta comment).toNat rest := by
  have hread : ∀ rest, assignments (AttributeLine.document lines ++ (comment ++ '\n' :: rest)) =
      lines.map AttributeLine.pair ++ assignmentsAt (bracketDelta comment).toNat rest := by
    intro rest
    rw [assignments, assignmentsAt_document, assignmentsAt_comment hmark hline]
    simp
  refine ⟨⟨?_, ?_⟩, hread⟩
  · intro hall
    by_contra hopens
    obtain ⟨depth, hdepth⟩ : ∃ depth, (bracketDelta comment).toNat = depth + 1 :=
      ⟨(bracketDelta comment).toNat - 1, by omega⟩
    have hsame := hall "a=".toList
    rw [hread, assignments, assignmentsAt_document, hdepth] at hsame
    obtain ⟨hhidden, hshown⟩ := assignmentsAt_succ_hides depth
    rw [hhidden, hshown] at hsame
    simp at hsame
  · intro hcloses rest
    have hdepth : (bracketDelta comment).toNat = 0 := by omega
    rw [hread, hdepth, assignments, assignmentsAt_document]

/-- A text in quotes with brackets in it, behind a tab, and a carriage return at the end. -/
def quotedLine : AttributeLine where
  lead := ['\t']
  key := "name"
  left := []
  right := []
  value := .quoted "a#(".toList ['\r'] (by simp) (by decide)
  ident := ⟨'n', "ame".toList, by decide, by decide, List.all_eq_true.mp (by decide)⟩
  blank_lead := List.forall_mem_singleton.mpr (by decide)
  blank_left := List.forall_mem_nil _
  blank_right := List.forall_mem_nil _
  one_sign := by decide

/-- An unquoted text with a string in it. -/
def unquotedLine : AttributeLine where
  lead := []
  key := "size"
  left := [' ']
  right := [' ']
  value := .unquoted "x ? \"\\\"\" : 1 ".toList {
    chars := by simp
    no_slashes := by decide +kernel
    no_escape := .inl (by decide +kernel)
    head := by
      intro c hc
      obtain rfl : 'x' = c := by simpa using hc
      decide }
  ident := ⟨'s', "ize".toList, by decide, by decide, List.all_eq_true.mp (by decide)⟩
  blank_lead := List.forall_mem_nil _
  blank_left := List.forall_mem_singleton.mpr (by decide)
  blank_right := List.forall_mem_singleton.mpr (by decide)
  one_sign := by simp

theorem assignments_past_comment_quotedLine :
    startsComment "// size = [a])".toList = true ∧ '\n' ∉ "// size = [a])".toList ∧
    bracketDelta "// size = [a])".toList ≤ 0 ∧
    assignments (AttributeLine.document [quotedLine, unquotedLine] ++
        ("// size = [a])".toList ++ '\n' :: "b = [".toList)) =
      assignments (AttributeLine.document [quotedLine, unquotedLine] ++ "b = [".toList) := by
  have hmark : startsComment "// size = [a])".toList = true := by decide +kernel
  have hline : '\n' ∉ "// size = [a])".toList := by decide +kernel
  have hcloses : bracketDelta "// size = [a])".toList ≤ 0 := by decide +kernel
  exact ⟨hmark, hline, hcloses,
    (assignments_past_comment [quotedLine, unquotedLine] hmark hline).1.mpr hcloses _⟩

/-- A round bracket in a comment hides the attribute on the next line. -/
theorem assignments_hidden_by_comment :
    startsComment "# see (a".toList = true ∧ '\n' ∉ "# see (a".toList ∧
    '\x7b' ∉ "# see (a".toList ∧ '\x7d' ∉ "# see (a".toList ∧
    assignments ("# see (a".toList ++ '\n' :: "b = 1\n".toList) = [] ∧
    assignments "b = 1\n".toList = [("b", "1")] := by
  refine ⟨?_, ?_, ?_, ?_, ?_, ?_⟩ <;> decide +kernel

end CodeAtlas.Terraform
