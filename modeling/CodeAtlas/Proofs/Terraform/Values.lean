import CodeAtlas.Proofs.Text
import CodeAtlas.Terraform.Attribute

/-!
# Simple values

A simple value is a text in quotes, a plain text, or a list of such texts in square
brackets, on one line or over several. Each is written down as a text, and reading
a value at the start of that text takes all of it and stops at the end of its last
line. Quotes, backslashes, comments and braces are what could lead the reader
astray; simple values have none where they would count.
-/

namespace CodeAtlas.Terraform

open CodeAtlas.Text

/-- A text without blanks at its ends, on one line, without quotes, brackets and comments. -/
structure IsPlain (t : List Char) : Prop extends Solid t where
  chars : ∀ c ∈ t, c ∉ ['\n', '"', '#', '[', ']', '(', ')', '{', '}']
  no_slashes : ¬['/', '/'] <:+: t

/-- A text in quotes, or a plain one. -/
inductive Scalar
  | quoted (content : List Char) (h : ∀ c ∈ content, c ∉ ['"', '\\', '\n', '{', '}'])
  | plain (content : List Char) (h : IsPlain content)

namespace Scalar

/-- The text without the quotes around it. -/
def content : Scalar → List Char
  | quoted t _ => t
  | plain t _ => t

def text : Scalar → List Char
  | quoted t _ => '"' :: (t ++ ['"'])
  | plain t _ => t

end Scalar

/-- Blanks that can stand between the elements of a list. Line ends are among them. -/
def IsGap (t : List Char) : Prop := ∀ c ∈ t, isBlank c = true ∧ c ≠ '\r'

/-- An element of a list, with the blanks around it. -/
structure Element where
  before : List Char
  scalar : Scalar
  after : List Char
  gap_before : IsGap before
  gap_after : IsGap after

def Element.text (e : Element) : List Char := e.before ++ (e.scalar.text ++ e.after)

/-- A scalar, or a list of scalars in brackets with commas between them. A comma may stand behind
the last one. With line ends in the gaps the list has one element per line, without any it is on one
line. -/
inductive SimpleValue
  | scalar (v : Scalar)
  | list (elements : List Element) (lastComma : Bool) (closing : List Char) (h : IsGap closing)

namespace SimpleValue

/-- What stands between the brackets of a list. -/
def listText (elements : List Element) (lastComma : Bool) (closing : List Char) : List Char :=
  joinPieces [','] (elements.map Element.text) ++ ((if lastComma then [','] else []) ++ closing)

def text : SimpleValue → List Char
  | scalar v => v.text
  | list elements lastComma closing _ => '[' :: (listText elements lastComma closing ++ [']'])

/-- The text of a value without quotes around it. -/
def content : SimpleValue → List Char
  | scalar v => v.content
  | v => v.text

end SimpleValue

/-- What follows a value: nothing, or the end of its line. -/
def EndsLine (rest : List Char) : Prop := rest = [] ∨ ∃ after, rest = '\n' :: after

theorem plainLength_cons_outside (depth : Nat) (c : Char) (cs : List Char) :
    plainLength depth false (c :: cs) =
      if c = '\n' && depth = 0 then 0
      else if c = '"' then plainLength depth true cs + 1
      else if depth = 0 && startsComment (c :: cs) then 0
      else if isOpening c then plainLength (depth + 1) false cs + 1
      else if isClosing c then
        if depth = 0 then 0 else plainLength (depth - 1) false cs + 1
      else plainLength depth false cs + 1 := by
  cases cs <;> rfl

theorem plainLength_cons_string (depth : Nat) {c : Char} (hc : c ≠ '\\') (cs : List Char) :
    plainLength depth true (c :: cs) =
      if c = '\n' && depth = 0 then 0 else plainLength depth (c != '"') cs + 1 := by
  cases cs <;> simp [plainLength, hc]

theorem plainLength_cons_escape (depth : Nat) (c : Char) (cs : List Char) :
    plainLength depth true ('\\' :: c :: cs) = plainLength depth true cs + 2 := by
  simp [plainLength]

/-- Inside of brackets the reader passes over the text and is where it was before. -/
structure Inside (t : List Char) : Prop where
  passes : ∀ rest, plainLength 1 false (t ++ rest) = plainLength 1 false rest + t.length
  noLineReturn : NoLineReturn t
  no_brace : '{' ∉ t ∧ '}' ∉ t

theorem Inside.nil : Inside [] := ⟨fun _ => rfl, trivial, by simp⟩

theorem Inside.append {a b : List Char} (ha : Inside a) (hb : Inside b) : Inside (a ++ b) := by
  refine ⟨?_, ha.noLineReturn.append hb.noLineReturn, ?_⟩
  · intro rest
    rw [List.append_assoc, ha.passes, hb.passes, List.length_append]
    omega
  · simp [ha.no_brace, hb.no_brace]

theorem Inside.joinPieces {sep : List Char} (hsep : Inside sep) {texts : List (List Char)}
    (h : ∀ t ∈ texts, Inside t) : Inside (joinPieces sep texts) := by
  induction texts with
  | nil => exact .nil
  | cons t texts ih =>
    have ht := h t List.mem_cons_self
    have hrest := ih fun u hu => h u (List.mem_cons_of_mem _ hu)
    cases texts with
    | nil => exact ht
    | cons u texts => exact (ht.append hsep).append hrest

theorem plainLength_one_of_not_mem {t : List Char}
    (h : ∀ c ∈ t, c ∉ ['"', '[', ']', '(', ')', '{', '}']) (rest : List Char) :
    plainLength 1 false (t ++ rest) = plainLength 1 false rest + t.length := by
  induction t with
  | nil => rfl
  | cons c t ih =>
    have ih := ih fun d hd => h d (List.mem_cons_of_mem _ hd)
    have hc := h c List.mem_cons_self
    simp only [List.mem_cons, List.not_mem_nil, or_false, not_or] at hc
    simp [plainLength_cons_outside, isOpening, isClosing, hc, ih]
    omega

/-- A string inside of brackets ends at its closing quote. -/
theorem plainLength_one_string {t : List Char} (h : ∀ c ∈ t, c ≠ '"' ∧ c ≠ '\\')
    (rest : List Char) :
    plainLength 1 true (t ++ '"' :: rest) = plainLength 1 false rest + t.length + 1 := by
  induction t with
  | nil => simp [plainLength_cons_string]
  | cons c t ih =>
    have ih := ih fun d hd => h d (List.mem_cons_of_mem _ hd)
    obtain ⟨hquote, hescape⟩ := h c List.mem_cons_self
    have hquote : (c != '"') = true := by simpa using hquote
    rw [List.cons_append, plainLength_cons_string 1 hescape, hquote, ih]
    simp
    omega

theorem inside_of_not_mem {t : List Char} (h : ∀ c ∈ t, c ∉ ['"', '[', ']', '(', ')', '{', '}'])
    (hline : NoLineReturn t) : Inside t := by
  refine ⟨plainLength_one_of_not_mem h, hline, ?_, ?_⟩
  · intro hmem
    exact h '{' hmem (by simp)
  · intro hmem
    exact h '}' hmem (by simp)

theorem IsGap.inside {t : List Char} (h : IsGap t) : Inside t := by
  apply inside_of_not_mem
  · intro c hc hmem
    obtain ⟨hblank, -⟩ := h c hc
    simp only [List.mem_cons, List.not_mem_nil, or_false] at hmem
    rcases hmem with rfl | rfl | rfl | rfl | rfl | rfl | rfl <;> revert hblank <;> decide
  · apply noLineReturn_of_not_mem
    intro hmem
    exact (h '\r' hmem).2 rfl

theorem Scalar.solid (v : Scalar) : Solid v.text := by
  cases v with
  | quoted t h => exact solid_enclosed (by decide) (by decide) t
  | plain t h => exact h.toSolid

theorem Scalar.newline_not_mem (v : Scalar) : '\n' ∉ v.text := by
  cases v with
  | quoted t h =>
    intro hmem
    have hmem : '\n' ∈ t := by simpa [text] using hmem
    exact h '\n' hmem (by simp)
  | plain t h =>
    intro hmem
    exact h.chars '\n' hmem (by simp)

/-- A text on one line that ends with no blank ends with no carriage return. -/
theorem noLineReturn_of_solid {t : List Char} (h : Solid t) (hline : '\n' ∉ t) :
    NoLineReturn t := by
  apply noLineReturn_of_getLast? hline
  intro hlast
  have hblank := h.last '\r' hlast
  revert hblank
  decide

theorem Scalar.inside (v : Scalar) : Inside v.text := by
  have hline := noLineReturn_of_solid v.solid v.newline_not_mem
  cases v with
  | quoted t h =>
    have hchars : ∀ c ∈ t, c ≠ '"' ∧ c ≠ '\\' ∧ c ≠ '{' ∧ c ≠ '}' := by
      intro c hc
      have hc := h c hc
      simp only [List.mem_cons, List.not_mem_nil, or_false, not_or] at hc
      exact ⟨hc.1, hc.2.1, hc.2.2.2⟩
    refine ⟨?_, hline, ?_⟩
    · intro rest
      have hstring := plainLength_one_string
        (fun c hc => ⟨(hchars c hc).1, (hchars c hc).2.1⟩) rest
      simp [text, plainLength_cons_outside, hstring]
      omega
    · have hopen : '{' ∉ t := fun hmem => (hchars '{' hmem).2.2.1 rfl
      have hclose : '}' ∉ t := fun hmem => (hchars '}' hmem).2.2.2 rfl
      simp [text, hopen, hclose]
  | plain t h =>
    apply inside_of_not_mem _ hline
    intro c hc hmem
    apply h.chars c hc
    simp only [List.mem_cons, List.not_mem_nil, or_false] at hmem
    rcases hmem with rfl | rfl | rfl | rfl | rfl | rfl | rfl <;> simp

theorem Element.inside (e : Element) : Inside e.text :=
  e.gap_before.inside.append (e.scalar.inside.append e.gap_after.inside)

theorem inside_comma : Inside [','] :=
  inside_of_not_mem (by simp) (noLineReturn_of_not_mem (by decide))

theorem inside_listText (elements : List Element) (lastComma : Bool) {closing : List Char}
    (h : IsGap closing) : Inside (SimpleValue.listText elements lastComma closing) := by
  have helements : ∀ t ∈ elements.map Element.text, Inside t := by
    intro t ht
    obtain ⟨e, -, rfl⟩ := List.mem_map.mp ht
    exact e.inside
  refine (inside_comma.joinPieces helements).append (Inside.append ?_ h.inside)
  cases lastComma with
  | true => exact inside_comma
  | false => exact .nil

namespace SimpleValue

theorem solid (v : SimpleValue) : Solid v.text := by
  cases v with
  | scalar v => exact v.solid
  | list elements lastComma closing h => exact solid_enclosed (by decide) (by decide) _

theorem noLineReturn (v : SimpleValue) : NoLineReturn v.text := by
  cases v with
  | scalar v => exact v.inside.noLineReturn
  | list elements lastComma closing h =>
    have hinner := (inside_listText elements lastComma h).noLineReturn
    have hopen : NoLineReturn ['['] := noLineReturn_of_not_mem (by decide)
    have hclose : NoLineReturn [']'] := noLineReturn_of_not_mem (by decide)
    exact hopen.append (hinner.append hclose)

theorem no_brace (v : SimpleValue) : '{' ∉ v.text ∧ '}' ∉ v.text := by
  cases v with
  | scalar v => exact v.inside.no_brace
  | list elements lastComma closing h =>
    have hinner := (inside_listText elements lastComma h).no_brace
    simp [text, hinner]

theorem stripQuotes_text (v : SimpleValue) : stripQuotes v.text = v.content := by
  rw [stripQuotes, v.solid.trim]
  cases v with
  | scalar v =>
    cases v with
    | quoted t h =>
      simp [text, Scalar.text, content, Scalar.content, getLast?_enclosed '"' '"' t]
    | plain t h =>
      have hquote : t.head? ≠ some '"' := by
        intro hhead
        exact h.chars '"' (List.mem_of_head? hhead) (by simp)
      simp [text, Scalar.text, content, Scalar.content, hquote]
  | list elements lastComma closing h => simp [text, content]

end SimpleValue

theorem EndsLine.plainLength {rest : List Char} (h : EndsLine rest) (inString : Bool) :
    plainLength 0 inString rest = 0 := by
  rcases h with rfl | ⟨after, rfl⟩
  · cases inString <;> rfl
  · cases inString
    · simp [plainLength_cons_outside]
    · simp [plainLength_cons_string]

theorem quotedLength_append {t : List Char} (h : ∀ c ∈ t, c ≠ '"' ∧ c ≠ '\\')
    (rest : List Char) : quotedLength (t ++ '"' :: rest) = t.length + 1 := by
  induction t with
  | nil => simp [quotedLength]
  | cons c t ih =>
    have ih := ih fun d hd => h d (List.mem_cons_of_mem _ hd)
    have hc := h c List.mem_cons_self
    simp [quotedLength, hc, ih]

theorem startsComment_eq_false {c : Char} {t rest : List Char} (hc : c ≠ '#')
    (hslashes : ¬['/', '/'] <:+: c :: t) (hrest : EndsLine rest) :
    startsComment (c :: (t ++ rest)) = false := by
  by_cases hslash : c = '/'
  · subst hslash
    cases t with
    | nil => rcases hrest with rfl | ⟨after, rfl⟩ <;> rfl
    | cons d t =>
      have hd : d ≠ '/' := by
        rintro rfl
        exact hslashes ⟨[], t, rfl⟩
      simp [startsComment, hd]
  · simp [startsComment, hc, hslash]

theorem getLast?_ne_of_cons {a c : Char} {t : List Char} (h : (c :: t).getLast? ≠ some a) :
    t.getLast? ≠ some a := by
  cases t with
  | nil => simp
  | cons d t => rwa [List.getLast?_cons_cons] at h

/-- A text without brackets and comments is read to the end of its line, through any strings in it.
Only a backslash at its very end, in a string, would take the line end with it. -/
theorem plainLength_zero_of_line {inString : Bool} {t rest : List Char}
    (h : ∀ c ∈ t, c ∉ ['\n', '#', '[', ']', '(', ')', '{', '}'])
    (hslashes : ¬['/', '/'] <:+: t)
    (hescape : t.getLast? ≠ some '\\' ∨ (inString = false ∧ '"' ∉ t)) (hrest : EndsLine rest) :
    plainLength 0 inString (t ++ rest) = t.length := by
  -- an escape takes two characters, so the induction is on the length
  induction hlength : t.length using Nat.strongRecOn generalizing t inString with
  | ind n ih =>
    subst hlength
    have ih : ∀ (u : List Char) (inString : Bool), u <:+ t → u.length < t.length →
        (u.getLast? ≠ some '\\' ∨ (inString = false ∧ '"' ∉ u)) →
        plainLength 0 inString (u ++ rest) = u.length := by
      intro u inString hu hlt hescape
      exact ih u.length hlt (fun c hc => h c (hu.subset hc))
        (fun hin => hslashes (hin.trans hu.isInfix)) hescape rfl
    cases t with
    | nil => exact hrest.plainLength inString
    | cons c t =>
      have hc := h c List.mem_cons_self
      simp only [List.mem_cons, List.not_mem_nil, or_false, not_or] at hc
      have hcomment := startsComment_eq_false hc.2.1 hslashes hrest
      have ih' := fun inString => ih t inString (List.suffix_cons c t) (by simp)
      rcases hescape with hescape | ⟨rfl, hquote⟩
      · have hlast := getLast?_ne_of_cons hescape
        cases inString
        · by_cases hquote : c = '"'
          · simp [plainLength_cons_outside, hquote, ih' true (.inl hlast)]
          · simp [plainLength_cons_outside, isOpening, isClosing, hc, hquote, hcomment,
              ih' false (.inl hlast)]
        · by_cases hbackslash : c = '\\'
          · subst hbackslash
            cases t with
            | nil => exact absurd rfl hescape
            | cons d t =>
              have hsuffix : t <:+ '\\' :: d :: t := ⟨['\\', d], rfl⟩
              have hshorter := ih t true hsuffix (by simp only [List.length_cons]; omega)
                (.inl (getLast?_ne_of_cons hlast))
              simp [plainLength_cons_escape, hshorter]
          · simp [plainLength_cons_string 0 hbackslash, hc, ih' (c != '"') (.inl hlast)]
      · obtain ⟨hne, hquote⟩ : '"' ≠ c ∧ '"' ∉ t := by simpa using hquote
        simp [plainLength_cons_outside, isOpening, isClosing, hc, hne.symm, hcomment,
          ih' false (.inr ⟨rfl, hquote⟩)]

/-- An unquoted value is read without the blanks around it. -/
theorem capture_of_unquoted {cs : List Char} (h : cs.head? ≠ some '"') :
    capture cs = (trim (cs.take (plainLength 0 false cs)), plainLength 0 false cs) := by
  cases cs with
  | nil => rfl
  | cons c cs =>
    rw [capture]
    · simp
    · rintro cs ⟨⟩
      exact h rfl

theorem capture_of_plainLength (t rest : List Char) (hquote : (t ++ rest).head? ≠ some '"')
    (hlength : plainLength 0 false (t ++ rest) = t.length) :
    capture (t ++ rest) = (trim t, t.length) := by
  rw [capture_of_unquoted hquote, hlength, List.take_left]

/-- Reading takes the whole text of a simple value, and stops at the end of its last line. -/
theorem SimpleValue.capture_append (v : SimpleValue) {rest : List Char} (hrest : EndsLine rest) :
    capture (v.text ++ rest) = (v.text, v.text.length) := by
  cases v with
  | scalar v =>
    cases v with
    | quoted t h =>
      have hchars : ∀ c ∈ t, c ≠ '"' ∧ c ≠ '\\' := by
        intro c hc
        have hc := h c hc
        simp only [List.mem_cons, List.not_mem_nil, or_false, not_or] at hc
        exact ⟨hc.1, hc.2.1⟩
      have hlength := quotedLength_append hchars rest
      have htake : (t ++ '"' :: rest).take (t.length + 1) = t ++ ['"'] := by
        rw [List.append_cons]
        exact List.take_left' (by simp)
      simp [text, Scalar.text, capture, hlength, htake]
    | plain t h =>
      have hquote : '"' ∉ t := fun hmem => h.chars '"' hmem (by simp)
      have hchars : ∀ c ∈ t, c ∉ ['\n', '#', '[', ']', '(', ')', '{', '}'] := by
        intro c hc hmem
        apply h.chars c hc
        simp only [List.mem_cons, List.not_mem_nil, or_false] at hmem ⊢
        tauto
      have hhead : (t ++ rest).head? ≠ some '"' := by
        obtain ⟨c, t, rfl⟩ := List.exists_cons_of_ne_nil h.ne_nil
        intro hhead
        exact hquote (List.mem_of_head? hhead)
      have hlength := plainLength_zero_of_line hchars h.no_slashes (.inr ⟨rfl, hquote⟩) hrest
      have hread := capture_of_plainLength t rest hhead hlength
      rwa [h.toSolid.trim] at hread
  | list elements lastComma closing h =>
    have hinner := (inside_listText elements lastComma h).passes (']' :: rest)
    have hlength : plainLength 0 false (text (list elements lastComma closing h) ++ rest) =
        (text (list elements lastComma closing h)).length := by
      simp [text, plainLength_cons_outside, startsComment, isOpening, isClosing, hinner,
        hrest.plainLength]
      omega
    have hread := capture_of_plainLength _ rest (by simp [text]) hlength
    rwa [(solid _).trim] at hread

end CodeAtlas.Terraform
