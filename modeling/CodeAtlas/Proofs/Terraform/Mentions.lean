import CodeAtlas.Terraform.Mention
import Mathlib.Data.List.TakeWhile

/-!
# Mentions are not hidden

A scan goes on behind each token it takes, so an earlier token could cover a
later one. It cannot where the later one stands behind a character that belongs
to no mention: all characters of a token do belong to one. Every such place of a
text is therefore looked at, and what stands there is found.
-/

namespace CodeAtlas.Terraform

open CodeAtlas.Text

/-- Characters of a mention: those of identifiers, and the dot between them. -/
def isMentionChar (c : Char) : Bool := isIdentChar c || c == '.'

/-- An ASCII letter or an underscore, then word characters and hyphens. -/
def IsIdentifier (n : List Char) : Prop :=
  ∃ c rest, n = c :: rest ∧ isIdentStart c = true ∧ ∀ x ∈ rest, isIdentChar x = true

/-- Lower case letters and digits that start with a letter, an underscore, and one or more lower
case letters, digits and underscores. -/
def IsTypeName (t : List Char) : Prop :=
  ∃ c provider rest, t = c :: (provider ++ '_' :: rest) ∧ c.isLower = true ∧
    (∀ x ∈ provider, x.isLower = true ∨ x.isDigit = true) ∧
    rest ≠ [] ∧ ∀ x ∈ rest, isTypeChar x = true

/-- The word stands in the text, behind no character of a mention and before no character that
could go on its last identifier. -/
def StandsIn (word text : List Char) : Prop :=
  ∃ front back, text = front ++ (word ++ back) ∧
    (∀ c, front.getLast? = some c → isMentionChar c = false) ∧
    ∀ c, back.head? = some c → isIdentChar c = false

theorem isIdentChar_of_isAlphanum {c : Char} (h : c.isAlphanum = true) : isIdentChar c = true := by
  simp [isIdentChar, isWordChar_of_isAlphanum h]

theorem isIdentChar_of_isIdentStart {c : Char} (h : isIdentStart c = true) :
    isIdentChar c = true := by
  rw [isIdentStart, Bool.or_eq_true] at h
  rcases h with halpha | h
  · exact isIdentChar_of_isAlphanum ((Bool.or_eq_true _ _).mpr (.inl halpha))
  · rw [beq_iff_eq.mp h]
    decide

theorem isIdentChar_of_isTypeChar {c : Char} (h : isTypeChar c = true) : isIdentChar c = true := by
  simp only [isTypeChar, Bool.or_eq_true] at h
  rcases h with (hlower | hdigit) | h
  · have halpha : c.isAlpha = true := (Bool.or_eq_true _ _).mpr (.inr hlower)
    exact isIdentChar_of_isAlphanum ((Bool.or_eq_true _ _).mpr (.inl halpha))
  · exact isIdentChar_of_isAlphanum ((Bool.or_eq_true _ _).mpr (.inr hdigit))
  · rw [beq_iff_eq.mp h]
    decide

theorem isMentionChar_of_isIdentChar {c : Char} (h : isIdentChar c = true) :
    isMentionChar c = true := by
  simp [isMentionChar, h]

theorem allowsMention_of_not_isMentionChar {c : Char} (h : isMentionChar c = false) :
    allowsMention c = true := by
  simp only [isMentionChar, isIdentChar, Bool.or_eq_false_iff] at h
  simp [allowsMention, bne, h.1.1, h.2]

theorem not_mem_of_isIdentChar {w : List Char} (h : ∀ x ∈ w, isIdentChar x = true) : '.' ∉ w := by
  intro hdot
  have := h '.' hdot
  revert this
  decide

theorem IsIdentifier.isIdentChar {n : List Char} (h : IsIdentifier n) :
    ∀ x ∈ n, isIdentChar x = true := by
  obtain ⟨c, rest, rfl, hc, hrest⟩ := h
  intro x hx
  rcases List.mem_cons.mp hx with rfl | hx
  · exact isIdentChar_of_isIdentStart hc
  · exact hrest x hx

theorem IsTypeName.isTypeChar {t : List Char} (h : IsTypeName t) :
    ∀ x ∈ t, isTypeChar x = true := by
  obtain ⟨c, provider, rest, rfl, hc, hprovider, -, hrest⟩ := h
  intro x hx
  simp only [List.mem_cons, List.mem_append] at hx
  rcases hx with rfl | hx | rfl | hx
  · simp [Terraform.isTypeChar, hc]
  · rcases hprovider x hx with h | h <;> simp [Terraform.isTypeChar, h]
  · rfl
  · exact hrest x hx

/-- A run of characters ends where the text goes on with another one. -/
theorem takeWhile_append_stop {p : Char → Bool} {w rest : List Char} (hw : ∀ x ∈ w, p x = true)
    (hrest : ∀ c, rest.head? = some c → p c = false) : (w ++ rest).takeWhile p = w := by
  have hnil : rest.takeWhile p = [] := by
    cases rest with
    | nil => rfl
    | cons c cs => simp [hrest c rfl]
  rw [List.takeWhile_append_of_pos hw, hnil, List.append_nil]

theorem dropWhile_append_stop {p : Char → Bool} {w rest : List Char} (hw : ∀ x ∈ w, p x = true)
    (hrest : ∀ c, rest.head? = some c → p c = false) : (w ++ rest).dropWhile p = rest := by
  rw [List.dropWhile_append_of_pos hw]
  cases rest with
  | nil => rfl
  | cons c cs => exact List.dropWhile_cons_of_neg (by simp [hrest c rfl])

theorem nameLength?_append {n back : List Char} (hn : IsIdentifier n)
    (hback : ∀ c, back.head? = some c → isIdentChar c = false) :
    nameLength? (n ++ back) = some n.length := by
  obtain ⟨c, rest, rfl, hc, hrest⟩ := hn
  simp [nameLength?, hc, takeWhile_append_stop hrest hback]

theorem dotted?_append {n back : List Char} (w : List Char) (hn : IsIdentifier n)
    (hback : ∀ c, back.head? = some c → isIdentChar c = false) :
    dotted? w.length (w ++ '.' :: (n ++ back)) = some (w ++ '.' :: n).length := by
  simp [dotted?, nameLength?_append hn hback, Nat.add_assoc, Nat.add_comm 1]

theorem typeLength?_append {t : List Char} (ht : IsTypeName t) (rest : List Char) :
    typeLength? (t ++ '.' :: rest) = some t.length := by
  have hrun : (t ++ '.' :: rest).takeWhile isTypeChar = t := by
    refine takeWhile_append_stop ht.isTypeChar ?_
    intro c hc
    obtain rfl : '.' = c := by simpa using hc
    decide
  obtain ⟨c, provider, tail, rfl, hc, hprovider, htail, -⟩ := ht
  have hsplit : (c :: (provider ++ '_' :: tail)).takeWhile (· != '_') = c :: provider := by
    refine takeWhile_append_stop (w := c :: provider) ?_ ?_
    · intro x hx
      rcases List.mem_cons.mp hx with rfl | hx
      · rw [bne_iff_ne]
        rintro rfl
        revert hc
        decide
      · rw [bne_iff_ne]
        rintro rfl
        have := hprovider '_' hx
        revert this
        decide
    · intro x hx
      obtain rfl : '_' = x := by simpa using hx
      rfl
  have hlength := List.length_pos_iff.mpr htail
  simp only [typeLength?, hrun, hsplit]
  simp [hc, hlength]

theorem resourceMention?_append {t n back : List Char} (ht : IsTypeName t) (hn : IsIdentifier n)
    (hback : ∀ c, back.head? = some c → isIdentChar c = false) :
    resourceMention? (t ++ '.' :: (n ++ back)) = some (t ++ '.' :: n).length := by
  simp only [resourceMention?, typeLength?_append ht, bind, Option.bind]
  exact dotted?_append t hn hback

theorem isMentionChar_of_nameLength? {cs : List Char} {n : Nat} (h : nameLength? cs = some n) :
    ∀ c ∈ cs.take n, isMentionChar c = true := by
  cases cs with
  | nil => simp
  | cons c cs =>
    simp only [nameLength?] at h
    split at h
    next hc =>
      obtain rfl : (cs.takeWhile isIdentChar).length + 1 = n := by simpa using h
      have hprefix : cs.take (cs.takeWhile isIdentChar).length = cs.takeWhile isIdentChar :=
        (List.prefix_iff_eq_take.mp (List.takeWhile_prefix _)).symm
      intro x hx
      rw [List.take_succ_cons, hprefix, List.mem_cons] at hx
      rcases hx with rfl | hx
      · exact isMentionChar_of_isIdentChar (isIdentChar_of_isIdentStart hc)
      · exact isMentionChar_of_isIdentChar (List.mem_takeWhile_imp hx)
    next => simp at h

/-- A dot and an identifier add only characters of a mention. -/
theorem isMentionChar_of_dotted? {cs : List Char} {n m : Nat} (h : dotted? n cs = some m)
    (hn : ∀ c ∈ cs.take n, isMentionChar c = true) : ∀ c ∈ cs.take m, isMentionChar c = true := by
  unfold dotted? at h
  split at h
  next rest hdrop =>
    obtain ⟨k, hk, rfl⟩ := Option.map_eq_some_iff.mp h
    have htake : cs.take (n + 1 + k) = cs.take n ++ '.' :: rest.take k := by
      rw [Nat.add_assoc, List.take_add, hdrop, Nat.add_comm 1 k, List.take_succ_cons]
    intro c hc
    rw [htake, List.mem_append, List.mem_cons] at hc
    rcases hc with hc | rfl | hc
    · exact hn c hc
    · rfl
    · exact isMentionChar_of_nameLength? hk c hc
  next => simp at h

theorem isMentionChar_of_resourceMention? {cs : List Char} {m : Nat}
    (h : resourceMention? cs = some m) : ∀ c ∈ cs.take m, isMentionChar c = true := by
  obtain ⟨n, hn, hm⟩ := Option.bind_eq_some_iff.mp h
  refine isMentionChar_of_dotted? hm ?_
  simp only [typeLength?] at hn
  split at hn
  next =>
    obtain rfl : (cs.takeWhile isTypeChar).length = n := by simpa using hn
    intro c hc
    rw [← List.prefix_iff_eq_take.mp (List.takeWhile_prefix _)] at hc
    exact isMentionChar_of_isIdentChar (isIdentChar_of_isTypeChar (List.mem_takeWhile_imp hc))
  next => simp at hn

section Scan

variable {length? : List Char → Option Nat} {after : Char → Bool}

/-- A scan reaches every place behind a character of no mention. The induction is on what stands
in front of the place; the characters still to be skipped all belong to a token, so the skip ends
before the last character in front. -/
theorem mem_scan_append
    (htoken : ∀ cs n, length? cs = some n → ∀ c ∈ cs.take n, isMentionChar c = true)
    {front : List Char} (hfront : ∀ c, front.getLast? = some c → isMentionChar c = false)
    (rest : List Char) (before : Option Char) (skip : Nat)
    (hskip : ∀ c ∈ front.take skip, isMentionChar c = true) (hnil : front = [] → skip = 0)
    {token : String}
    (h : token ∈ scan length? after (front.getLast?.or before) 0 rest) :
    token ∈ scan length? after before skip (front ++ rest) := by
  induction front generalizing before skip with
  | nil => simpa [hnil rfl] using h
  | cons c front ih =>
    have htail : ∀ x, front.getLast? = some x → isMentionChar x = false := by
      intro x hx
      exact hfront x (by simp [List.getLast?_cons, hx])
    have hlast : (c :: front).getLast?.or before = front.getLast?.or (some c) := by
      cases hf : front.getLast? <;> simp [List.getLast?_cons, hf]
    rw [hlast] at h
    -- A skip past the first character ends before the place as well.
    have hfirst : isMentionChar c = true → front ≠ [] := by
      rintro hc rfl
      have := hfront c rfl
      simp [hc] at this
    cases skip with
    | succ skip =>
      have hc : isMentionChar c = true := hskip c (by simp)
      exact ih htail (some c) skip (fun x hx => hskip x (by simp [hx]))
        (fun hf => absurd hf (hfirst hc)) h
    | zero =>
      simp only [List.cons_append, scan]
      split
      next n hn =>
        have hlen : length? (c :: (front ++ rest)) = some n := by
          split at hn
          · exact hn
          · simp at hn
        have hchars := htoken _ n hlen
        refine List.mem_cons_of_mem _ (ih htail (some c) (n - 1) ?_ ?_ h)
        · intro x hx
          refine hchars x ?_
          cases n with
          | zero => simp at hx
          | succ n =>
            rw [List.take_succ_cons, List.mem_cons, List.take_append]
            exact .inr (List.mem_append_left _ hx)
        · intro hf
          cases n with
          | zero => rfl
          | succ n => exact absurd hf (hfirst (hchars c (by simp)))
      next => exact ih htail (some c) 0 (by simp) (fun _ => rfl) h

/-- What stands in a text as a token is found by a scan of the text. -/
theorem mem_scan_of_standsIn
    (htoken : ∀ cs n, length? cs = some n → ∀ c ∈ cs.take n, isMentionChar c = true)
    {word text : List Char} (hword : word ≠ []) (hin : StandsIn word text)
    (hlength : ∀ back : List Char, (∀ c, back.head? = some c → isIdentChar c = false) →
      length? (word ++ back) = some word.length) :
    String.ofList word ∈ scan length? allowsMention none 0 text := by
  obtain ⟨front, back, rfl, hfront, hback⟩ := hin
  refine mem_scan_append htoken hfront _ none 0 (by simp) (fun _ => rfl) ?_
  have hallowed : (front.getLast?.map allowsMention).getD true = true := by
    cases hf : front.getLast? with
    | none => rfl
    | some c => exact allowsMention_of_not_isMentionChar (hfront c hf)
  obtain ⟨c, cs, rfl⟩ := List.exists_cons_of_ne_nil hword
  have hlen := hlength back hback
  rw [List.cons_append] at hlen ⊢
  simp only [Option.or_none, scan, hallowed, if_true, hlen]
  rw [← List.cons_append, List.take_left]
  exact List.mem_cons_self

end Scan

/-- A resource that a text names is among the mentions of the text. -/
theorem mem_mentions_of_standsIn {t n text : List Char} (ht : IsTypeName t) (hn : IsIdentifier n)
    (hin : StandsIn (t ++ '.' :: n) text) : String.ofList (t ++ '.' :: n) ∈ mentions text := by
  have hfound :
      String.ofList (t ++ '.' :: n) ∈ scan resourceMention? allowsMention none 0 text := by
    refine mem_scan_of_standsIn (fun _ _ h => isMentionChar_of_resourceMention? h) (by simp) hin ?_
    intro back hback
    rw [List.append_assoc, List.cons_append]
    exact resourceMention?_append ht hn hback
  rw [mentions, List.mem_eraseDups]
  exact List.mem_append_right _ hfound

end CodeAtlas.Terraform
