import CodeAtlas.Proofs.Table
import CodeAtlas.Proofs.Terraform.Mentions
import CodeAtlas.Proofs.Terraform.Values
import CodeAtlas.Terraform.Manifest

/-!
# Blocks that are written down

A stanza is a block as one writes it down: the opening line with its labels, one
attribute after another, and the closing brace on a line of its own. Its attributes
are read back from its text, each with the text of its value, and its opening line
as what it opens.
-/

namespace CodeAtlas.Terraform

open CodeAtlas.Text

/-- An attribute with a simple value. -/
structure Item where
  key : String
  value : SimpleValue
  ident : IsIdentifier key.toList

namespace Item

def assignmentText (i : Item) : List Char := i.key.toList ++ (' ' :: '=' :: ' ' :: i.value.text)

def text (i : Item) : List Char := ' ' :: ' ' :: i.assignmentText

/-- The key with the text of the value. -/
def pair (i : Item) : String × String := (i.key, String.ofList i.value.text)

end Item

/-- A label is not empty and has no quotes, braces or line ends in it. -/
structure IsLabel (l : String) : Prop where
  ne_empty : l ≠ ""
  chars : ∀ c ∈ l.toList, c ∉ ['"', '{', '}', '\n']

namespace Header

def labels : Header → List String
  | resource type name | dataSource type name => [type, name]
  | moduleCall name | variableDecl name | outputValue name | provider name => [name]
  | locals => []

/-- A label in quotes, with a space in front. -/
def labelText (l : String) : List Char := ' ' :: '"' :: (l.toList ++ ['"'])

/-- The opening line up to its brace. -/
def front (h : Header) : List Char := h.keyword.toList ++ (h.labels.flatMap labelText ++ [' '])

def text (h : Header) : List Char := h.front ++ ['{']

end Header

/-- A block with simple values under distinct keys, and the blank lines in front of it. -/
structure Stanza where
  gap : List (List Char)
  header : Header
  items : List Item
  blank : ∀ line ∈ gap, ∀ c ∈ line, isBlank c = true ∧ c ≠ '\n'
  labels : ∀ l ∈ header.labels, IsLabel l
  distinct : (items.map Item.key).Nodup

/-- Attributes, each on a line of its own behind what comes first. -/
def followingText (items : List Item) : List Char := items.flatMap fun i => '\n' :: i.text

def Stanza.text (s : Stanza) : List Char :=
  s.header.text ++ (followingText s.items ++ ['\n', '}'])

example : Stanza.text
    { gap := []
      header := .locals
      items := [
        { key := "zone"
          value := .scalar (.quoted "eu".toList (by simp))
          ident := ⟨'z', "one".toList, by decide, by decide, List.all_eq_true.mp (by decide)⟩ }]
      blank := by simp
      labels := by simp [Header.labels]
      distinct := by simp } = "locals \x7b\n  zone = \"eu\"\n\x7d".toList := by decide

namespace Stanza

/-- The value under a key, without quotes around it. -/
def field? (s : Stanza) (name : String) : Option String :=
  (s.items.find? (·.key = name)).map fun i => String.ofList i.value.content

/-- The values that a stanza passes on to a module, as they are written. -/
def arguments (s : Stanza) : Table String where
  entries := (s.items.filter fun i => !metaArguments.contains i.key).map Item.pair
  nodup_keys := by
    rw [List.map_map]
    exact s.distinct.sublist (List.filter_sublist.map _)

/-- The provider that a stanza names, if it names one, and else the one of its type. -/
def provider (s : Stanza) (type : String) : String :=
  ((s.field? "provider").filter (· ≠ "")).getD (String.ofList (type.toList.takeWhile (· != '_')))

end Stanza

theorem isBlank_of_isAlpha {c : Char} (h : c.isAlpha = true) : isBlank c = false := by
  have hrange : 65 ≤ c.toNat ∧ c.toNat ≤ 122 := by
    rcases (Bool.or_eq_true _ _).mp h with hupper | hlower
    · obtain ⟨hfirst, hlast⟩ := of_decide_eq_true hupper
      have hfirst : 65 ≤ c.toNat := UInt32.le_iff_toNat_le.mp hfirst
      have hlast : c.toNat ≤ 90 := UInt32.le_iff_toNat_le.mp hlast
      omega
    · obtain ⟨hfirst, hlast⟩ := (Bool.and_eq_true _ _).mp hlower
      have hfirst : 97 ≤ c.toNat := UInt32.le_iff_toNat_le.mp (of_decide_eq_true hfirst)
      have hlast : c.toNat ≤ 122 := UInt32.le_iff_toNat_le.mp (of_decide_eq_true hlast)
      omega
  simp only [isBlank, Bool.or_eq_false_iff, Bool.and_eq_false_iff, decide_eq_false_iff_not,
    beq_eq_false_iff_ne]
  omega

theorem isBlank_of_isIdentStart {c : Char} (h : isIdentStart c = true) : isBlank c = false := by
  rcases (Bool.or_eq_true _ _).mp h with halpha | hunderscore
  · exact isBlank_of_isAlpha halpha
  · rw [beq_iff_eq.mp hunderscore]
    decide

theorem IsIdentifier.head {n : List Char} (h : IsIdentifier n) :
    ∀ c, n.head? = some c → isBlank c = false := by
  obtain ⟨d, rest, rfl, hd, -⟩ := h
  intro c hc
  rw [← Option.some.inj hc]
  exact isBlank_of_isIdentStart hd

theorem IsIdentifier.not_mem {n : List Char} (h : IsIdentifier n) {c : Char}
    (hc : Text.isIdentChar c = false) : c ∉ n := by
  intro hmem
  rw [h.isIdentChar c hmem] at hc
  cases hc

/-- The code points of blanks. -/
def blankCodes : List Nat :=
  List.range' 0x09 5 ++ (List.range' 0x1c 5 ++ (List.range' 0x2000 11 ++
    [0x85, 0xa0, 0x1680, 0x2028, 0x2029, 0x202f, 0x205f, 0x3000]))

theorem isIdentChar_of_isBlank {c : Char} (h : isBlank c = true) : isIdentChar c = false := by
  have hcode : c.toNat ∈ blankCodes := by
    simp only [isBlank, Bool.or_eq_true, Bool.and_eq_true, decide_eq_true_eq, beq_iff_eq] at h
    simp only [blankCodes, List.mem_append, List.mem_range'_1, List.mem_cons, List.not_mem_nil,
      or_false]
    omega
  have hall : ∀ n ∈ blankCodes, isIdentChar (Char.ofNat n) = false := by decide +kernel
  have hc := hall c.toNat hcode
  rwa [Char.ofNat_toNat] at hc

/-- The start of an assignment, with blanks in front of the key and around the equals sign. -/
theorem assignment?_append {lead key left right w : List Char}
    (hlead : ∀ c ∈ lead, isBlank c = true) (hkey : IsIdentifier key)
    (hleft : ∀ c ∈ left, isBlank c = true) (hright : ∀ c ∈ right, isBlank c = true)
    (hw : ∀ c, w.head? = some c → isBlank c = false)
    (hequals : (right ++ w).head? ≠ some '=') :
    assignment? (lead ++ (key ++ (left ++ '=' :: (right ++ w)))) =
      some (String.ofList key, w) := by
  obtain ⟨c, rest, rfl, hc, hrest⟩ := hkey
  have hstart : trimLeft (lead ++ (c :: rest ++ (left ++ '=' :: (right ++ w)))) =
      c :: (rest ++ (left ++ '=' :: (right ++ w))) := by
    apply trimLeft_append hlead
    intro d hd
    rw [← Option.some.inj hd]
    exact isBlank_of_isIdentStart hc
  have hstop : ∀ d, (left ++ '=' :: (right ++ w)).head? = some d → isIdentChar d = false := by
    intro d hd
    cases left with
    | nil =>
      rw [← Option.some.inj hd]
      decide
    | cons b left =>
      rw [← Option.some.inj hd]
      exact isIdentChar_of_isBlank (hleft b List.mem_cons_self)
  have htake : (rest ++ (left ++ '=' :: (right ++ w))).takeWhile isIdentChar = rest :=
    takeWhile_append_stop hrest hstop
  have hdrop : (rest ++ (left ++ '=' :: (right ++ w))).dropWhile isIdentChar =
      left ++ '=' :: (right ++ w) :=
    dropWhile_append_stop hrest hstop
  have hsign : trimLeft (left ++ '=' :: (right ++ w)) = '=' :: (right ++ w) := by
    apply trimLeft_append hleft
    intro d hd
    rw [← Option.some.inj hd]
    decide
  have hvalue : trimLeft (right ++ w) = w := trimLeft_append hright hw
  rw [assignment?, hstart]
  simp only [hc, if_true, hdrop, hsign, htake, hvalue, if_neg hequals]

theorem assignmentsAt_of_assignment? {body after : List Char} {key : String}
    (h : assignment? (body.takeWhile (· != '\n')) = some (key, after)) :
    assignmentsAt 0 body =
      let value := body.drop ((body.takeWhile (· != '\n')).length - after.length)
      (key, String.ofList (capture value).1) ::
        assignmentsAt 0 (nextLine (value.drop (capture value).2)) := by
  cases body with
  | nil => cases h
  | cons c cs =>
    rw [assignmentsAt]
    simp [h]

theorem assignmentsAt_of_none {depth : Nat} {body : List Char} (hne : body ≠ [])
    (h : depth = 0 → assignment? (body.takeWhile (· != '\n')) = none) :
    assignmentsAt depth body =
      assignmentsAt (depth + bracketDelta (body.takeWhile (· != '\n'))).toNat (nextLine body) := by
  obtain ⟨c, cs, rfl⟩ := List.exists_cons_of_ne_nil hne
  have hnone : (if depth = 0 then assignment? ((c :: cs).takeWhile (· != '\n')) else none) =
      none := by
    split
    next hdepth => exact h hdepth
    next => rfl
  rw [assignmentsAt]
  simp only [hnone]

/-- The first line of a text that starts with no blank starts with none. -/
theorem head_takeWhile_of_solid {t : List Char} (h : Solid t) (rest : List Char) :
    ∀ c, ((t ++ rest).takeWhile (· != '\n')).head? = some c → isBlank c = false := by
  intro c hc
  obtain ⟨d, t, rfl⟩ := List.exists_cons_of_ne_nil h.ne_nil
  have hd : isBlank d = false := h.head d rfl
  have hnewline : d ≠ '\n' := by
    rintro rfl
    revert hd
    decide
  have hhead : (((d :: t) ++ rest).takeWhile (· != '\n')).head? = some d := by simp [hnewline]
  rw [hhead] at hc
  rwa [← Option.some.inj hc]

/-- A value behind the start of an assignment is read, and reading goes on at the line after it. -/
theorem assignmentsAt_opening {opening : List Char} (value : List Char) {key : String}
    (hline : '\n' ∉ opening)
    (hassign : assignment? (opening ++ value.takeWhile (· != '\n')) =
      some (key, value.takeWhile (· != '\n'))) :
    assignmentsAt 0 (opening ++ value) =
      (key, String.ofList (capture value).1) ::
        assignmentsAt 0 (nextLine (value.drop (capture value).2)) := by
  have hfirst : (opening ++ value).takeWhile (· != '\n') =
      opening ++ value.takeWhile (· != '\n') :=
    List.takeWhile_append_of_pos (bne_of_not_mem hline)
  have hdrop : (opening ++ value).drop ((opening ++ value.takeWhile (· != '\n')).length -
      (value.takeWhile (· != '\n')).length) = value := by
    rw [List.length_append, Nat.add_sub_cancel, List.drop_left]
  rw [assignmentsAt_of_assignment? (hfirst ▸ hassign), hfirst, hdrop]

/-- An attribute is read back, and reading goes on at the line after its value. -/
theorem assignmentsAt_item (i : Item) (lead : List Char) {rest : List Char}
    (hlead : ∀ c ∈ lead, isBlank c = true ∧ c ≠ '\n') (hrest : EndsLine rest) :
    assignmentsAt 0 (lead ++ (i.assignmentText ++ rest)) =
      i.pair :: assignmentsAt 0 (nextLine rest) := by
  have hspace : ∀ c ∈ [' '], isBlank c = true := List.forall_mem_singleton.mpr (by decide)
  have hkey : '\n' ∉ i.key.toList := i.ident.not_mem (by decide)
  have hblanks : '\n' ∉ lead := fun hmem => (hlead '\n' hmem).2 rfl
  have hassign := assignment?_append (fun c hc => (hlead c hc).1) i.ident hspace hspace
    (head_takeWhile_of_solid i.value.solid rest) (by simp)
  have hline : '\n' ∉ lead ++ (i.key.toList ++ [' ', '=', ' ']) := by simp [hkey, hblanks]
  have hread := assignmentsAt_opening (i.value.text ++ rest) hline (by simpa using hassign)
  rw [i.value.capture_append hrest, List.drop_left] at hread
  simpa [Item.assignmentText, Item.pair] using hread

theorem followingText_cons (i : Item) (items : List Item) :
    followingText (i :: items) =
      ['\n', ' ', ' '] ++ (i.assignmentText ++ followingText items) := by
  simp [followingText, Item.text]

theorem endsLine_followingText (items : List Item) : EndsLine (followingText items) := by
  cases items with
  | nil => exact .inl rfl
  | cons i items => exact .inr ⟨i.text ++ followingText items, rfl⟩

theorem assignmentsAt_followingText (items : List Item) :
    assignmentsAt 0 (nextLine (followingText items)) = items.map Item.pair := by
  induction items with
  | nil => simp [followingText, nextLine, assignmentsAt]
  | cons i items ih =>
    have hnext : nextLine (followingText (i :: items)) =
        [' ', ' '] ++ (i.assignmentText ++ followingText items) := by
      simp [followingText_cons, nextLine]
    have hindent : ∀ c ∈ [' ', ' '], isBlank c = true ∧ c ≠ '\n' := by
      intro c hc
      have hspace : c = ' ' := by simpa using hc
      rw [hspace]
      decide
    rw [hnext, assignmentsAt_item i _ hindent (endsLine_followingText items), ih]
    rfl

theorem Item.solid (i : Item) : Solid i.assignmentText := by
  obtain ⟨c, rest, hkey, -⟩ := i.ident
  exact solid_between [' ', '=', ' '] (by simp [hkey]) i.ident.head i.value.solid

theorem solid_items (i : Item) (items : List Item) :
    Solid (i.assignmentText ++ followingText items) := by
  induction items generalizing i with
  | nil => simpa [followingText] using i.solid
  | cons j items ih =>
    rw [followingText_cons]
    exact solid_between _ i.solid.ne_nil i.solid.head (ih j)

theorem blockBody_enclosed {front : List Char} (h : '{' ∉ front) (inner : List Char) :
    blockBody (front ++ '{' :: (inner ++ ['}'])) = inner := by
  rw [blockBody, dropWhile_bne_append h]
  simp

theorem Header.keyword_lower (h : Header) :
    h.keyword.toList ≠ [] ∧ ∀ c ∈ h.keyword.toList, c.isLower = true := by
  have hmem : h.keyword ∈
      ["resource", "data", "module", "variable", "output", "provider", "locals"] := by
    cases h <;> simp [keyword]
  have hall : ∀ w ∈ ["resource", "data", "module", "variable", "output", "provider", "locals"],
      w.toList ≠ [] ∧ w.toList.all Char.isLower = true := by decide
  obtain ⟨hne, hlower⟩ := hall h.keyword hmem
  exact ⟨hne, List.all_eq_true.mp hlower⟩

theorem Header.not_mem_of_mem_front {h : Header} (hlabels : ∀ l ∈ h.labels, IsLabel l) :
    ∀ c ∈ h.front, c ∉ ['{', '}', '\n'] := by
  intro c hc
  simp only [front, List.mem_append, List.mem_flatMap, List.mem_singleton] at hc
  rcases hc with hc | ⟨l, hl, hc⟩ | rfl
  · have hlower := h.keyword_lower.2 c hc
    intro hmem
    simp only [List.mem_cons, List.not_mem_nil, or_false] at hmem
    rcases hmem with rfl | rfl | rfl <;> revert hlower <;> decide
  · simp only [labelText, List.mem_cons, List.mem_append, List.not_mem_nil, or_false] at hc
    rcases hc with rfl | rfl | hc | rfl
    · decide
    · decide
    · intro hmem
      exact (hlabels l hl).chars c hc (List.mem_cons_of_mem _ hmem)
    · decide
  · decide

namespace Stanza

theorem text_eq (s : Stanza) :
    s.text = s.header.front ++ '{' :: ((followingText s.items ++ ['\n']) ++ ['}']) := by
  simp [text, Header.text]

/-- Reading the attributes of a stanza gives them back, in order. -/
theorem blockAssignments_text (s : Stanza) : blockAssignments s.text = s.items.map Item.pair := by
  have hfront : '{' ∉ s.header.front := fun hmem =>
    Header.not_mem_of_mem_front s.labels '{' hmem (by simp)
  rw [blockAssignments, text_eq, blockBody_enclosed hfront, assignments]
  cases s.items with
  | nil =>
    have htrim : trim (followingText [] ++ ['\n']) = [] := by decide
    rw [htrim, assignmentsAt]
    rfl
  | cons i items =>
    rw [followingText_cons, List.append_assoc, (solid_items i items).trim_append
      (List.all_eq_true.mp (by decide)) (List.all_eq_true.mp (by decide))]
    have hread := assignmentsAt_item i [] (by simp) (endsLine_followingText items)
    rw [List.nil_append] at hread
    rw [hread, assignmentsAt_followingText]
    rfl

theorem lookup_pair (items : List Item) (name : String) :
    (items.map Item.pair).lookup name =
      (items.find? (·.key = name)).map fun i => String.ofList i.value.text := by
  induction items with
  | nil => rfl
  | cons i items ih =>
    rw [List.map_cons, Item.pair, Table.lookup_cons_ite, ih]
    by_cases h : i.key = name
    · simp [h]
    · simp [h, Ne.symm h]

theorem attribute?_text (s : Stanza) (name : String) : attribute? s.text name = s.field? name := by
  rw [attribute?, blockAssignments_text, lookup_pair, field?]
  cases s.items.find? (·.key = name) with
  | none => rfl
  | some i => simp [SimpleValue.stripQuotes_text]

theorem providerOf_text (s : Stanza) (type : String) :
    providerOf type s.text = s.provider type := by
  rw [providerOf, attribute?_text, provider]
  cases s.field? "provider" with
  | none => rfl
  | some name =>
    by_cases h : name = "" <;> simp [h, Option.filter]

theorem moduleArguments_text (s : Stanza) : moduleArguments s.text = s.arguments := by
  rw [moduleArguments, blockAssignments_text, List.filter_map]
  exact Table.ofPairs_of_nodup s.arguments.nodup_keys

theorem entries_localValues_text (s : Stanza) :
    (localValues s.text).entries = s.items.map Item.pair := by
  have hkeys : ((s.items.map Item.pair).map Prod.fst).Nodup := by
    rw [List.map_map]
    exact s.distinct
  rw [localValues, blockAssignments_text, Table.ofPairs_of_nodup hkeys]

end Stanza

theorem label?_append {l : String} (h : IsLabel l) (rest : List Char) :
    label? (Header.labelText l ++ rest) = some (l, rest) := by
  have hclosing : '"' ∉ l.toList := fun hmem => h.chars '"' hmem (by simp)
  have hne : l.toList ≠ [] := fun hnil => h.ne_empty (String.toList_eq_nil_iff.mp hnil)
  have hblank : isBlank ' ' = true := by decide
  have hquote : isBlank '"' = false := by decide
  simp [label?, Header.labelText, trimLeft, hblank, hquote, takeWhile_bne_append hclosing,
    dropWhile_bne_append hclosing, hne]

theorem keyword_append {w : List Char} (hlower : ∀ c ∈ w, c.isLower = true) (hne : w ≠ [])
    (rest : List Char) :
    trimLeft (w ++ ' ' :: rest) = w ++ ' ' :: rest ∧
    (w ++ ' ' :: rest).takeWhile Char.isLower = w ∧
    (w ++ ' ' :: rest).dropWhile Char.isLower = ' ' :: rest := by
  refine ⟨?_, takeWhile_append_stop hlower (by simp), ?_⟩
  · obtain ⟨c, w, rfl⟩ := List.exists_cons_of_ne_nil hne
    have halpha : c.isAlpha = true :=
      (Bool.or_eq_true _ _).mpr (.inr (hlower c List.mem_cons_self))
    exact List.dropWhile_cons_of_neg (by simp [isBlank_of_isAlpha halpha])
  · rw [List.dropWhile_append_of_pos hlower]
    exact List.dropWhile_cons_of_neg (by decide)

/-- The opening line of a block opens it. -/
theorem Header.header?_text {h : Header} (hlabels : ∀ l ∈ h.labels, IsLabel l) :
    header? h.text = some h := by
  have hopens : opensNext [' ', '{'] = true := by decide
  have hrest : ∃ rest, h.labels.flatMap labelText ++ [' ', '{'] = ' ' :: rest := by
    cases h <;> exact ⟨_, rfl⟩
  obtain ⟨rest, hrest⟩ := hrest
  obtain ⟨htrim, htake, hdrop⟩ := keyword_append h.keyword_lower.2 h.keyword_lower.1 rest
  have htext : h.text = h.keyword.toList ++ ' ' :: rest := by
    rw [← hrest, text, front]
    simp
  rw [htext, header?, htrim, htake, hdrop, ← hrest, String.ofList_toList]
  cases h with
  | resource type name | dataSource type name =>
    simp [keyword, labels, twoLabels?, oneLabel?, label?_append (hlabels type (by simp [labels])),
      label?_append (hlabels name (by simp [labels])), hopens]
  | moduleCall name | variableDecl name | outputValue name | provider name =>
    simp [keyword, labels, oneLabel?, label?_append (hlabels name (by simp [labels])), hopens]
  | locals => simp [keyword, labels, hopens]

end CodeAtlas.Terraform
