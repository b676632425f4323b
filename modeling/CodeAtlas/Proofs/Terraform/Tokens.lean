import CodeAtlas.Proofs.Reachability
import CodeAtlas.Proofs.Terraform.Mentions

/-!
# What a scan for mentions finds

Each kind of mention has a shape, and its measure takes the words of this shape,
as far as their last identifier goes, and no others. So whatever a scan finds has
the shape and stands in the text behind a character that allows it; and since no
token covers a place behind a character of no mention, what stands at such a place
is found.
-/

namespace CodeAtlas.Terraform

open CodeAtlas.Text

/-- The shapes of mentions. -/
inductive IsMention : List Char → Prop
  | variableValue {x : List Char} (hx : IsIdentifier x) : IsMention ("var".toList ++ '.' :: x)
  | localValue {x : List Char} (hx : IsIdentifier x) : IsMention ("local".toList ++ '.' :: x)
  | moduleCall {x : List Char} (hx : IsIdentifier x) : IsMention ("module".toList ++ '.' :: x)
  | dataSource {y x : List Char} (hy : IsIdentifier y) (hx : IsIdentifier x) :
    IsMention ("data".toList ++ '.' :: y ++ '.' :: x)
  | resource {t x : List Char} (ht : IsTypeName t) (hx : IsIdentifier x) :
    IsMention (t ++ '.' :: x)

/-- A text that does not go on an identifier in front of it. -/
def EndsName (back : List Char) : Prop := ∀ c, back.head? = some c → isIdentChar c = false

/-- The word stands in the text, behind neither a word character nor a dot, and its last identifier
is whole. -/
def OccursIn (word text : List Char) : Prop :=
  ∃ front back, text = front ++ (word ++ back) ∧
    (∀ c, front.getLast? = some c → isWordChar c = false ∧ c ≠ '.') ∧ EndsName back

/-- A word of a given shape, a dot and an identifier. -/
def Dotted (shape : List Char → Prop) (word : List Char) : Prop :=
  ∃ w x, shape w ∧ IsIdentifier x ∧ word = w ++ '.' :: x

/-- A measure takes the words of a shape at the start of a text, each with its last identifier
whole, and nothing else. -/
structure Measures (length? : List Char → Option Nat) (shape : List Char → Prop) : Prop where
  complete : ∀ word back, shape word → EndsName back → length? (word ++ back) = some word.length
  sound : ∀ cs n, length? cs = some n →
    ∃ word back, cs = word ++ back ∧ word.length = n ∧ shape word ∧ EndsName back

theorem endsName_dot (rest : List Char) : EndsName ('.' :: rest) := by
  intro c hc
  obtain rfl : '.' = c := by simpa using hc
  decide

theorem endsName_dropWhile (cs : List Char) : EndsName (cs.dropWhile isIdentChar) := by
  intro c hc
  have hnot := List.head?_dropWhile_not isIdentChar cs
  rw [hc] at hnot
  simpa using hnot

theorem measures_nameLength? : Measures nameLength? IsIdentifier where
  complete _ _ hword hback := nameLength?_append hword hback
  sound cs n h := by
    cases cs with
    | nil => cases h
    | cons c cs =>
      by_cases hc : isIdentStart c = true
      · simp only [nameLength?, hc, if_true, Option.some.injEq] at h
        refine ⟨c :: cs.takeWhile isIdentChar, cs.dropWhile isIdentChar, ?_, ?_, ?_,
          endsName_dropWhile cs⟩
        · rw [List.cons_append, List.takeWhile_append_dropWhile]
        · rw [List.length_cons, h]
        · exact ⟨c, _, rfl, hc, fun x hx => List.mem_takeWhile_imp hx⟩
      · simp [nameLength?, hc] at h

/-- If one measure is right about words in front of a dot, reading on behind the dot is right about
dotted words. -/
theorem measures_dotted? {length? : List Char → Option Nat} {shape : List Char → Prop}
    (hcomplete : ∀ w rest, shape w → length? (w ++ '.' :: rest) = some w.length)
    (hsound : ∀ cs n, length? cs = some n → ∃ w rest, cs = w ++ rest ∧ w.length = n ∧ shape w) :
    Measures (fun cs => (length? cs).bind (dotted? · cs)) (Dotted shape) where
  complete := by
    rintro _ back ⟨w, x, hw, hx, rfl⟩ hback
    rw [List.append_assoc, List.cons_append, hcomplete w _ hw, Option.bind_some]
    exact dotted?_append w hx hback
  sound cs n h := by
    obtain ⟨k, hk, hn⟩ := Option.bind_eq_some_iff.mp h
    obtain ⟨w, rest, rfl, rfl, hw⟩ := hsound cs k hk
    simp only [dotted?, List.drop_left] at hn
    split at hn
    next tail =>
      obtain ⟨m, hm, rfl⟩ := Option.map_eq_some_iff.mp hn
      obtain ⟨x, back, rfl, rfl, hx, hback⟩ := measures_nameLength?.sound tail m hm
      refine ⟨w ++ '.' :: x, back, by simp, ?_, ⟨w, x, hw, hx, rfl⟩, hback⟩
      simp only [List.length_append, List.length_cons]
      omega
    next => cases hn

theorem measures_keyworded? (keyword : String) :
    Measures (keyworded? keyword) (Dotted (· = keyword.toList)) := by
  have heq : keyworded? keyword = fun cs =>
      (if keyword.toList.isPrefixOf cs then some keyword.toList.length else none).bind
        (dotted? · cs) := by
    funext cs
    rw [keyworded?, ← String.length_toList]
    split <;> rfl
  rw [heq]
  refine measures_dotted? ?_ ?_
  · rintro _ rest rfl
    simp
  · intro cs n h
    split at h
    next hprefix =>
      obtain ⟨rest, rfl⟩ := List.isPrefixOf_iff_prefix.mp hprefix
      exact ⟨keyword.toList, rest, rfl, Option.some.inj h, rfl⟩
    next => cases h

theorem measures_dataMention? : Measures dataMention? (Dotted (Dotted (· = "data".toList))) := by
  have hkeyword := measures_keyworded? "data"
  refine measures_dotted? ?_ ?_
  · intro w rest hw
    exact hkeyword.complete w _ hw (endsName_dot rest)
  · intro cs n h
    obtain ⟨w, rest, hcs, hn, hw, -⟩ := hkeyword.sound cs n h
    exact ⟨w, rest, hcs, hn, hw⟩

/-- What a type has in front of its first underscore, and what it has behind. -/
theorem isTypeName_of_head {run : List Char} (hrun : ∀ x ∈ run, isTypeChar x = true)
    (hhead : (run.head?.map Char.isLower).getD false = true)
    (hlength : (run.takeWhile (· != '_')).length + 1 < run.length) : IsTypeName run := by
  cases run with
  | nil => cases hhead
  | cons c run =>
    have hc : c.isLower = true := hhead
    have hne : (c != '_') = true := by
      rw [bne_iff_ne]
      rintro rfl
      revert hc
      decide
    simp only [List.takeWhile_cons, hne, if_true, List.length_cons] at hlength
    have hsplit := List.takeWhile_append_dropWhile (p := (· != '_')) (l := run)
    have hstop := List.head?_dropWhile_not (· != '_') run
    generalize hprovider : run.takeWhile (· != '_') = provider at hsplit hlength
    generalize run.dropWhile (· != '_') = tail at hsplit hstop
    cases tail with
    | nil =>
      rw [← hsplit, List.append_nil] at hlength
      omega
    | cons d rest =>
      obtain rfl : d = '_' := by simpa using hstop
      subst hsplit
      refine ⟨c, provider, rest, rfl, hc, ?_, ?_, ?_⟩
      · intro x hx
        have htype := hrun x (by simp [hx])
        have hx' : x ≠ '_' := by
          rw [← hprovider] at hx
          simpa using List.mem_takeWhile_imp hx
        simpa [isTypeChar, hx'] using htype
      · rintro rfl
        simp at hlength
      · intro x hx
        exact hrun x (by simp [hx])

theorem exists_of_typeLength? {cs : List Char} {n : Nat} (h : typeLength? cs = some n) :
    ∃ t rest, cs = t ++ rest ∧ t.length = n ∧ IsTypeName t := by
  simp only [typeLength?] at h
  split at h
  next hcond =>
    obtain ⟨hhead, hlength⟩ := (Bool.and_eq_true _ _).mp hcond
    refine ⟨cs.takeWhile isTypeChar, cs.dropWhile isTypeChar, ?_, Option.some.inj h, ?_⟩
    · rw [List.takeWhile_append_dropWhile]
    · exact isTypeName_of_head (fun x hx => List.mem_takeWhile_imp hx) hhead
        (of_decide_eq_true hlength)
  next => cases h

theorem measures_resourceMention? : Measures resourceMention? (Dotted IsTypeName) :=
  measures_dotted? (fun _ rest ht => typeLength?_append ht rest)
    fun _ _ h => exists_of_typeLength? h

theorem isMentionChar_of_dotted {shape : List Char → Prop}
    (hshape : ∀ w, shape w → ∀ c ∈ w, isMentionChar c = true) {word : List Char}
    (h : Dotted shape word) : ∀ c ∈ word, isMentionChar c = true := by
  obtain ⟨w, x, hw, hx, rfl⟩ := h
  intro c hc
  rw [List.mem_append, List.mem_cons] at hc
  rcases hc with hc | rfl | hc
  · exact hshape w hw c hc
  · rfl
  · exact isMentionChar_of_isIdentChar (hx.isIdentChar c hc)

theorem isMentionChar_of_keyworded {keyword : String}
    (hkeyword : ∀ c ∈ keyword.toList, isMentionChar c = true) {word : List Char}
    (h : Dotted (· = keyword.toList) word) : ∀ c ∈ word, isMentionChar c = true := by
  refine isMentionChar_of_dotted ?_ h
  rintro _ rfl
  exact hkeyword

section Scan

variable {length? : List Char → Option Nat} {after : Char → Bool}

/-- A token of a scan stands where the measure takes it, behind a character that allows it. -/
theorem exists_of_mem_scan {text : List Char} {token : String} (before : Option Char) (skip : Nat)
    (h : token ∈ scan length? after before skip text) :
    ∃ front rest n, text = front ++ rest ∧ length? rest = some n ∧
      token = String.ofList (rest.take n) ∧
      ∀ c, front.getLast?.or before = some c → after c = true := by
  induction text generalizing before skip with
  | nil => cases h
  | cons c cs ih =>
    -- What is found further on has this character in front of it, or one behind it.
    have hlater : ∀ skip, token ∈ scan length? after (some c) skip cs →
        ∃ front rest n, c :: cs = front ++ rest ∧ length? rest = some n ∧
          token = String.ofList (rest.take n) ∧
          ∀ d, front.getLast?.or before = some d → after d = true := by
      intro skip hmem
      obtain ⟨front, rest, n, rfl, hn, htoken, hafter⟩ := ih (some c) skip hmem
      refine ⟨c :: front, rest, n, rfl, hn, htoken, ?_⟩
      intro d hd
      apply hafter d
      cases hf : front.getLast? <;> simp_all [List.getLast?_cons]
    cases skip with
    | succ skip => exact hlater skip h
    | zero =>
      simp only [scan] at h
      split at h
      next n hn =>
        rcases List.mem_cons.mp h with rfl | hmem
        · split at hn
          next hallowed =>
            refine ⟨[], c :: cs, n, rfl, hn, rfl, ?_⟩
            intro d hd
            obtain rfl : before = some d := by simpa using hd
            simpa using hallowed
          next => cases hn
        · exact hlater _ hmem
      next => exact hlater _ h

namespace Measures

variable {shape : List Char → Prop}

theorem occursIn_of_mem_scan (hlength : Measures length? shape) {text : List Char} {token : String}
    (h : token ∈ scan length? allowsMention none 0 text) :
    shape token.toList ∧ OccursIn token.toList text := by
  obtain ⟨front, rest, n, rfl, hn, rfl, hafter⟩ := exists_of_mem_scan none 0 h
  obtain ⟨word, back, rfl, rfl, hword, hback⟩ := hlength.sound rest n hn
  rw [List.take_left, String.toList_ofList]
  refine ⟨hword, front, back, rfl, ?_, hback⟩
  intro c hc
  simpa [allowsMention] using hafter c (by simp [hc])

theorem mem_scan_of_standsIn (hlength : Measures length? shape)
    (hchars : ∀ word, shape word → ∀ c ∈ word, isMentionChar c = true) {word text : List Char}
    (hne : word ≠ []) (hword : shape word) (hin : StandsIn word text) :
    String.ofList word ∈ scan length? allowsMention none 0 text := by
  refine Terraform.mem_scan_of_standsIn ?_ hne hin fun back hback =>
    hlength.complete word back hword hback
  intro cs n hn c hc
  obtain ⟨w, back, rfl, rfl, hw, -⟩ := hlength.sound cs n hn
  rw [List.take_left] at hc
  exact hchars w hw c hc

end Measures

end Scan

theorem mem_mentions_iff (text : List Char) (token : String) :
    token ∈ mentions text ↔
      token ∈ scan (keyworded? "var") allowsMention none 0 text ∨
      token ∈ scan (keyworded? "local") allowsMention none 0 text ∨
      token ∈ scan (keyworded? "module") allowsMention none 0 text ∨
      token ∈ scan dataMention? allowsMention none 0 text ∨
      token ∈ scan resourceMention? allowsMention none 0 text := by
  rw [mentions, List.mem_eraseDups]
  simp only [List.mem_append, or_assoc]

/-- A word with a keyword stands in a text: it is found by the scan for the keyword. -/
theorem mem_scan_keyworded? {keyword : String}
    (hkeyword : keyword.toList.all isMentionChar = true) {x text : List Char}
    (hx : IsIdentifier x) (hin : StandsIn (keyword.toList ++ '.' :: x) text) :
    String.ofList (keyword.toList ++ '.' :: x) ∈
      scan (keyworded? keyword) allowsMention none 0 text := by
  refine (measures_keyworded? keyword).mem_scan_of_standsIn ?_ (by simp) ⟨_, x, rfl, hx, rfl⟩ hin
  intro word hword
  exact isMentionChar_of_keyworded (List.all_eq_true.mp hkeyword) hword

theorem mem_scan_dataMention? {y x text : List Char} (hy : IsIdentifier y) (hx : IsIdentifier x)
    (hin : StandsIn ("data".toList ++ '.' :: y ++ '.' :: x) text) :
    String.ofList ("data".toList ++ '.' :: y ++ '.' :: x) ∈
      scan dataMention? allowsMention none 0 text := by
  refine measures_dataMention?.mem_scan_of_standsIn ?_ (by simp)
    ⟨_, x, ⟨_, y, rfl, hy, rfl⟩, hx, rfl⟩ hin
  intro word hword
  refine isMentionChar_of_dotted ?_ hword
  intro w hw
  exact isMentionChar_of_keyworded (List.all_eq_true.mp (by decide)) hw

theorem exists_of_mem_scan_keyworded? {keyword token : String} {text : List Char}
    (h : token ∈ scan (keyworded? keyword) allowsMention none 0 text) :
    (∃ x, IsIdentifier x ∧ token.toList = keyword.toList ++ '.' :: x) ∧
      OccursIn token.toList text := by
  obtain ⟨⟨_, x, rfl, hx, hword⟩, hoccurs⟩ := (measures_keyworded? keyword).occursIn_of_mem_scan h
  exact ⟨⟨x, hx, hword⟩, hoccurs⟩

/-- The mentions of a text are all different. Each has the shape of a mention and occurs in the
text, behind neither a word character nor a dot; and whatever has such a shape and stands in the
text, behind no character of a mention and with its last identifier whole, is among them. -/
theorem mentions_exact (text : List Char) :
    (mentions text).Nodup ∧
    (∀ token ∈ mentions text, IsMention token.toList ∧ OccursIn token.toList text) ∧
    ∀ word, IsMention word → StandsIn word text → String.ofList word ∈ mentions text := by
  refine ⟨Order.nodup_eraseDups _, ?_, ?_⟩
  · intro token htoken
    rcases (mem_mentions_iff text token).mp htoken with h | h | h | h | h
    · obtain ⟨⟨x, hx, hword⟩, hoccurs⟩ := exists_of_mem_scan_keyworded? h
      exact ⟨hword ▸ .variableValue hx, hoccurs⟩
    · obtain ⟨⟨x, hx, hword⟩, hoccurs⟩ := exists_of_mem_scan_keyworded? h
      exact ⟨hword ▸ .localValue hx, hoccurs⟩
    · obtain ⟨⟨x, hx, hword⟩, hoccurs⟩ := exists_of_mem_scan_keyworded? h
      exact ⟨hword ▸ .moduleCall hx, hoccurs⟩
    · obtain ⟨⟨_, x, ⟨_, y, rfl, hy, rfl⟩, hx, hword⟩, hoccurs⟩ :=
        measures_dataMention?.occursIn_of_mem_scan h
      exact ⟨hword ▸ .dataSource hy hx, hoccurs⟩
    · obtain ⟨⟨t, x, ht, hx, hword⟩, hoccurs⟩ := measures_resourceMention?.occursIn_of_mem_scan h
      exact ⟨hword ▸ .resource ht hx, hoccurs⟩
  · intro word hword hin
    cases hword with
    | variableValue hx =>
      exact (mem_mentions_iff _ _).mpr (.inl (mem_scan_keyworded? (by decide) hx hin))
    | localValue hx =>
      exact (mem_mentions_iff _ _).mpr (.inr (.inl (mem_scan_keyworded? (by decide) hx hin)))
    | moduleCall hx =>
      exact (mem_mentions_iff _ _).mpr (.inr (.inr (.inl (mem_scan_keyworded? (by decide) hx hin))))
    | dataSource hy hx =>
      exact (mem_mentions_iff _ _).mpr (.inr (.inr (.inr (.inl (mem_scan_dataMention? hy hx hin)))))
    | resource ht hx => exact mem_mentions_of_standsIn ht hx hin

/-- Two names that a hyphen runs together, and a data source with an attribute. -/
def joinedNames : List Char := "var.a-local.b + data.aws_ami.base.id".toList

theorem mentions_exact_joinedNames :
    (mentions joinedNames).Nodup ∧ OccursIn "local.b".toList joinedNames ∧
    StandsIn "data.aws_ami.base".toList joinedNames ∧
    "data.aws_ami.base" ∈ mentions joinedNames := by
  obtain ⟨hnodup, hsound, hcomplete⟩ := mentions_exact joinedNames
  have hmention : IsMention "data.aws_ami.base".toList :=
    .dataSource (y := "aws_ami".toList) (x := "base".toList)
      ⟨'a', "ws_ami".toList, by decide, by decide, List.all_eq_true.mp (by decide)⟩
      ⟨'b', "ase".toList, by decide, by decide, List.all_eq_true.mp (by decide)⟩
  have hin : StandsIn "data.aws_ami.base".toList joinedNames := by
    refine ⟨"var.a-local.b + ".toList, ".id".toList, by decide, ?_, ?_⟩
    · intro c hc
      obtain rfl : ' ' = c := by simpa using hc
      decide
    · exact endsName_dot _
  exact ⟨hnodup, (hsound "local.b" (by decide +kernel)).2, hin, hcomplete _ hmention hin⟩

end CodeAtlas.Terraform
