import CodeAtlas.Text.Blank
import CodeAtlas.Text.Lines
import Mathlib.Data.List.Basic
import Mathlib.Data.List.TakeWhile

/-!
# Lines and blanks of joined texts

Cutting a text at a separator and joining texts with it undo each other, part by
part. A source text has the pieces between its line feeds as lines, if no carriage
return stands at the end of one.
-/

namespace CodeAtlas.Text

theorem bne_of_not_mem {sep : Char} {t : List Char} (h : sep ∉ t) :
    ∀ c ∈ t, (c != sep) = true := by
  intro c hc
  have hne : c ≠ sep := fun he => h (he ▸ hc)
  simpa using hne

theorem length_takeWhile_append {α : Type} (p : α → Bool) (xs ys : List α) :
    ((xs ++ ys).takeWhile p).length = (xs.takeWhile p).length +
      if (xs.takeWhile p).length = xs.length then (ys.takeWhile p).length else 0 := by
  rw [List.takeWhile_append]
  split <;> simp [*]

theorem takeWhile_bne_append {sep : Char} {t : List Char} (h : sep ∉ t) (rest : List Char) :
    (t ++ sep :: rest).takeWhile (· != sep) = t := by
  rw [List.takeWhile_append_of_pos (bne_of_not_mem h), List.takeWhile_cons_of_neg (by simp),
    List.append_nil]

theorem dropWhile_bne_append {sep : Char} {t : List Char} (h : sep ∉ t) (rest : List Char) :
    (t ++ sep :: rest).dropWhile (· != sep) = sep :: rest := by
  rw [List.dropWhile_append_of_pos (bne_of_not_mem h), List.dropWhile_cons_of_neg (by simp)]

theorem pieces_append_cons (sep : Char) (a b : List Char) :
    pieces sep (a ++ sep :: b) = pieces sep a ++ pieces sep b := by
  induction a with
  | nil => simp [pieces]
  | cons c a ih =>
    by_cases hc : c = sep
    · simp [pieces, hc, ih]
    · have hne := pieces_ne_nil sep a
      cases hp : pieces sep a with
      | nil => exact absurd hp hne
      | cons p ps => simp [pieces, hc, ih, hp]

theorem pieces_of_not_mem {sep : Char} {w : List Char} (h : sep ∉ w) : pieces sep w = [w] := by
  induction w with
  | nil => rfl
  | cons c w ih =>
    obtain ⟨hc, hw⟩ : sep ≠ c ∧ sep ∉ w := by simpa using h
    simp [pieces, Ne.symm hc, ih hw]

theorem pieces_append {sep : Char} {w : List Char} (h : sep ∉ w) (rest : List Char) :
    pieces sep (w ++ sep :: rest) = w :: pieces sep rest := by
  rw [pieces_append_cons, pieces_of_not_mem h, List.singleton_append]

/-- The pieces of texts that are joined are those of each text, one after another. -/
theorem pieces_joinPieces {sep : Char} {texts : List (List Char)} (h : texts ≠ []) :
    pieces sep (joinPieces [sep] texts) = texts.flatMap (pieces sep) := by
  induction texts with
  | nil => exact absurd rfl h
  | cons t texts ih =>
    cases texts with
    | nil => simp [joinPieces]
    | cons u texts =>
      have hrest := ih (by simp)
      rw [joinPieces, List.append_assoc, List.singleton_append, pieces_append_cons, hrest]
      rfl

theorem mem_of_mem_pieces {sep c : Char} {t p : List Char} (hp : p ∈ pieces sep t) (hc : c ∈ p) :
    c ∈ t := by
  induction t generalizing p with
  | nil =>
    rw [pieces, List.mem_singleton] at hp
    exact hp ▸ hc
  | cons d t ih =>
    rw [pieces] at hp
    split at hp
    next =>
      rcases List.mem_cons.mp hp with rfl | hp
      · cases hc
      · exact List.mem_cons_of_mem _ (ih hp hc)
    next =>
      cases hq : pieces sep t with
      | nil => exact absurd hq (pieces_ne_nil sep t)
      | cons q qs =>
        rw [hq] at hp ih
        rcases List.mem_cons.mp hp with rfl | hp
        · rcases List.mem_cons.mp hc with rfl | hc
          · exact List.mem_cons_self
          · exact List.mem_cons_of_mem _ (ih List.mem_cons_self hc)
        · exact List.mem_cons_of_mem _ (ih (List.mem_cons_of_mem _ hp) hc)

theorem not_mem_of_mem_pieces {sep : Char} {t p : List Char} (hp : p ∈ pieces sep t) : sep ∉ p := by
  induction t generalizing p with
  | nil =>
    rw [pieces, List.mem_singleton] at hp
    simp [hp]
  | cons c t ih =>
    by_cases hc : c = sep
    · simp only [pieces, hc, if_true, List.mem_cons] at hp
      rcases hp with rfl | hp
      · exact List.not_mem_nil
      · exact ih hp
    · cases hq : pieces sep t with
      | nil => exact absurd hq (pieces_ne_nil sep t)
      | cons q qs =>
        simp only [pieces, hc, if_false, hq, List.mem_cons] at hp ih
        rcases hp with rfl | hp
        · simpa [Ne.symm hc] using ih (.inl rfl)
        · exact ih (.inr hp)

/-- Texts without the separator are cut apart as they were before they were joined. -/
theorem pieces_joinPieces_of_not_mem {sep : Char} {texts : List (List Char)} (hne : texts ≠ [])
    (h : ∀ t ∈ texts, sep ∉ t) : pieces sep (joinPieces [sep] texts) = texts := by
  have hsingle : texts.flatMap (pieces sep) = texts.flatMap fun t => [t] :=
    List.flatMap_congr fun t ht => pieces_of_not_mem (h t ht)
  rw [pieces_joinPieces hne, hsingle, List.flatMap_singleton']

/-- The first pieces are the front of the text. -/
theorem joinPieces_take_prefix (sep : List Char) (parts : List (List Char)) (k : Nat) :
    joinPieces sep (parts.take k) <+: joinPieces sep parts := by
  induction parts generalizing k with
  | nil => simp
  | cons p parts ih =>
    cases k with
    | zero => exact List.nil_prefix
    | succ k =>
      cases parts with
      | nil => simp
      | cons q parts =>
        have hrest := ih k
        cases k with
        | zero => simp [joinPieces]
        | succ k =>
          simp only [List.take_succ_cons, joinPieces] at hrest ⊢
          exact (List.prefix_append_right_inj (p ++ sep)).mpr hrest

theorem length_pieces (sep : Char) (t : List Char) :
    (pieces sep t).length = t.count sep + 1 := by
  induction t with
  | nil => rfl
  | cons c t ih =>
    by_cases hc : c = sep
    · simp [pieces, hc, ih]
    · cases hp : pieces sep t with
      | nil => exact absurd hp (pieces_ne_nil sep t)
      | cons p ps =>
        rw [hp] at ih
        simpa [pieces, hc, hp] using ih

/-- No carriage return stands at the end of a line. -/
def NoLineReturn : List Char → Prop
  | [] => True
  | c :: cs => (c = '\r' → ∃ d, cs.head? = some d ∧ d ≠ '\n') ∧ NoLineReturn cs

theorem NoLineReturn.append {a b : List Char} (ha : NoLineReturn a) (hb : NoLineReturn b) :
    NoLineReturn (a ++ b) := by
  induction a with
  | nil => exact hb
  | cons c a ih =>
    refine ⟨?_, ih ha.2⟩
    intro hc
    obtain ⟨d, hd, hne⟩ := ha.1 hc
    exact ⟨d, by simp [List.head?_append, hd], hne⟩

theorem noLineReturn_of_not_mem {t : List Char} (h : '\r' ∉ t) : NoLineReturn t := by
  induction t with
  | nil => trivial
  | cons c t ih =>
    obtain ⟨hc, ht⟩ : '\r' ≠ c ∧ '\r' ∉ t := by simpa using h
    exact ⟨fun he => absurd he.symm hc, ih ht⟩

/-- On one line only the end counts. -/
theorem noLineReturn_of_getLast? {t : List Char} (hline : '\n' ∉ t)
    (hlast : t.getLast? ≠ some '\r') : NoLineReturn t := by
  induction t with
  | nil => trivial
  | cons c t ih =>
    cases t with
    | nil => exact ⟨fun hc => absurd (by rw [hc]; rfl) hlast, trivial⟩
    | cons d t =>
      obtain ⟨-, hd, ht⟩ : '\n' ≠ c ∧ '\n' ≠ d ∧ '\n' ∉ t := by simpa using hline
      refine ⟨fun _ => ⟨d, rfl, hd.symm⟩, ih (by simp [hd, ht]) ?_⟩
      rwa [List.getLast?_cons_cons] at hlast

theorem NoLineReturn.flatMap {α : Type} {f : α → List Char} {l : List α}
    (h : ∀ a ∈ l, NoLineReturn (f a)) : NoLineReturn (l.flatMap f) := by
  induction l with
  | nil => trivial
  | cons a l ih =>
    rw [List.flatMap_cons]
    apply (h a List.mem_cons_self).append
    exact ih fun b hb => h b (List.mem_cons_of_mem _ hb)

/-- Lines without carriage returns at their ends are kept as they are. -/
theorem map_dropReturn_pieces {t : List Char} (h : NoLineReturn t) :
    (pieces '\n' t).map dropReturn = pieces '\n' t := by
  induction t with
  | nil => rfl
  | cons c t ih =>
    have ih := ih h.2
    by_cases hc : c = '\n'
    · simp [pieces, hc, ih, dropReturn]
    · cases t with
      | nil =>
        have hreturn : c ≠ '\r' := by
          intro hr
          obtain ⟨d, hd, -⟩ := h.1 hr
          cases hd
        simp [pieces, hc, dropReturn, hreturn]
      | cons d t =>
        by_cases hd : d = '\n'
        · -- the first line is the one character
          have hreturn : c ≠ '\r' := by
            intro hr
            obtain ⟨e, he, hne⟩ := h.1 hr
            exact hne ((Option.some.inj he).symm.trans hd)
          rw [hd] at ih ⊢
          simpa [pieces, hc, dropReturn, hreturn] using ih
        · cases hp : pieces '\n' t with
          | nil => exact absurd hp (pieces_ne_nil '\n' t)
          | cons p ps =>
            simp only [pieces, hd, if_false, hp, List.map_cons, List.cons.injEq] at ih
            have hlast : (d :: p).getLast? ≠ some '\r' := by
              intro hr
              have hlength := congrArg List.length ih.1
              simp [dropReturn, hr] at hlength
            have hkept : dropReturn (c :: d :: p) = c :: d :: p := by
              rw [dropReturn, List.getLast?_cons_cons, if_neg hlast]
            simp [pieces, hc, hd, hp, hkept, ih.2]

theorem sourceLines_of_getLast? {t : List Char} (h : (pieces '\n' t).getLast? ≠ some []) :
    sourceLines t = (pieces '\n' t).map dropReturn := by
  simp [sourceLines, h]

theorem sourceLines_append_newline (t : List Char) :
    sourceLines (t ++ ['\n']) = (pieces '\n' t).map dropReturn := by
  have hpieces : pieces '\n' (t ++ ['\n']) = pieces '\n' t ++ [[]] := pieces_append_cons '\n' t []
  simp [sourceLines, hpieces]

/-- A text that ends with a line feed, or is empty, does not share a line with what follows it. -/
theorem sourceLines_append {a : List Char} (h : a = [] ∨ a.getLast? = some '\n') (b : List Char) :
    sourceLines (a ++ b) = sourceLines a ++ sourceLines b := by
  rcases h with rfl | hlast
  · rfl
  · obtain ⟨t, rfl⟩ := List.getLast?_eq_some_iff.mp hlast
    have hpieces : pieces '\n' (t ++ ['\n'] ++ b) = pieces '\n' t ++ pieces '\n' b := by
      rw [List.append_assoc, List.singleton_append, pieces_append_cons]
    have hne := pieces_ne_nil '\n' b
    rw [sourceLines_append_newline]
    simp only [sourceLines, hpieces]
    rw [List.getLast?_append_of_ne_nil _ hne, List.dropLast_append_of_ne_nil hne]
    split <;> simp

theorem length_sourceLines {a : List Char} (h : a = [] ∨ a.getLast? = some '\n') :
    (sourceLines a).length = a.count '\n' := by
  rcases h with rfl | hlast
  · rfl
  · obtain ⟨t, rfl⟩ := List.getLast?_eq_some_iff.mp hlast
    rw [sourceLines_append_newline, List.length_map, length_pieces]
    simp

/-- A text that neither starts nor ends with a blank. -/
structure Solid (t : List Char) : Prop where
  ne_nil : t ≠ []
  head : ∀ c, t.head? = some c → isBlank c = false
  last : ∀ c, t.getLast? = some c → isBlank c = false

theorem trimLeft_append {b t : List Char} (hb : ∀ c ∈ b, isBlank c = true)
    (ht : ∀ c, t.head? = some c → isBlank c = false) : trimLeft (b ++ t) = t := by
  rw [trimLeft, List.dropWhile_append_of_pos hb]
  cases t with
  | nil => rfl
  | cons c t => rw [List.dropWhile_cons_of_neg (by simp [ht c rfl])]

theorem Solid.trimLeft_append {t : List Char} (h : Solid t) {b : List Char}
    (hb : ∀ c ∈ b, isBlank c = true) (rest : List Char) :
    trimLeft (b ++ (t ++ rest)) = t ++ rest := by
  apply Text.trimLeft_append hb
  intro c hc
  obtain ⟨d, t, rfl⟩ := List.exists_cons_of_ne_nil h.ne_nil
  exact h.head c hc

/-- Trimming takes the blanks around a text and nothing of it. -/
theorem Solid.trim_append {t : List Char} (h : Solid t) {b e : List Char}
    (hb : ∀ c ∈ b, isBlank c = true) (he : ∀ c ∈ e, isBlank c = true) :
    trim (b ++ (t ++ e)) = t := by
  have hreverse : trimLeft (e.reverse ++ t.reverse) = t.reverse := by
    apply Text.trimLeft_append
    · intro c hc
      exact he c (List.mem_reverse.mp hc)
    · intro c hc
      exact h.last c (by rwa [List.head?_reverse] at hc)
  rw [trim, h.trimLeft_append hb, trimRight, List.reverse_append, hreverse, List.reverse_reverse]

theorem Solid.trim {t : List Char} (h : Solid t) : trim t = t := by
  simpa using h.trim_append (b := []) (e := []) (by simp) (by simp)

theorem getLast?_enclosed {α : Type} (a b : α) (t : List α) :
    (a :: (t ++ [b])).getLast? = some b :=
  List.getLast?_concat (l := a :: t)

theorem solid_enclosed {a b : Char} (ha : isBlank a = false) (hb : isBlank b = false)
    (t : List Char) : Solid (a :: (t ++ [b])) := by
  refine ⟨by simp, ?_, ?_⟩
  · intro c hc
    rwa [← Option.some.inj hc]
  · intro c hc
    rw [getLast?_enclosed] at hc
    rwa [← Option.some.inj hc]

theorem solid_between {a c : List Char} (b : List Char) (hne : a ≠ [])
    (ha : ∀ x, a.head? = some x → isBlank x = false) (hc : Solid c) :
    Solid (a ++ (b ++ c)) := by
  obtain ⟨x, a, rfl⟩ := List.exists_cons_of_ne_nil hne
  refine ⟨by simp, ha, ?_⟩
  intro y hy
  have hlast : c.getLast? = some y := by
    obtain ⟨z, hz⟩ := Option.isSome_iff_exists.mp (List.getLast?_isSome.mpr hc.ne_nil)
    rw [← List.append_assoc, List.getLast?_append, hz] at hy
    rw [hz]
    exact hy
  exact hc.last y hlast

theorem isBlank_of_head?_trimLeft {t : List Char} {c : Char} (h : (trimLeft t).head? = some c) :
    isBlank c = false := by
  have hnot := List.head?_dropWhile_not isBlank t
  rw [trimLeft] at h
  simpa [h] using hnot

theorem trimRight_prefix (t : List Char) : trimRight t <+: t := by
  rw [trimRight, ← List.reverse_suffix, List.reverse_reverse]
  exact List.dropWhile_suffix isBlank

/-- What trimming leaves as it is neither starts nor ends with a blank. -/
theorem solid_of_trim_eq {t : List Char} (h : Text.trim t = t) (hne : t ≠ []) : Solid t := by
  refine ⟨hne, ?_, ?_⟩
  · intro c hc
    obtain ⟨rest, hrest⟩ := trimRight_prefix (trimLeft t)
    rw [← trim, h] at hrest
    exact isBlank_of_head?_trimLeft (by rw [← hrest, List.head?_append, hc, Option.some_or])
  · intro c hc
    rw [← h, trim, trimRight, List.getLast?_reverse] at hc
    exact isBlank_of_head?_trimLeft hc

theorem joinPieces_cons (sep p : List Char) (ps : List (List Char)) :
    joinPieces sep (p :: ps) = p ++ ps.flatMap (sep ++ ·) := by
  induction ps generalizing p with
  | nil => simp [joinPieces]
  | cons q ps ih => rw [joinPieces, ih, List.flatMap_cons, List.append_assoc, List.append_assoc]

/-- Texts between two solid ones make a solid text together. -/
theorem solid_joinPieces (sep : List Char) {first last : List Char} (hfirst : Solid first)
    (hlast : Solid last) (middle : List (List Char)) :
    Solid (joinPieces sep (first :: (middle ++ [last]))) := by
  rw [joinPieces_cons, List.flatMap_append, List.flatMap_singleton, ← List.append_assoc _ sep last]
  exact solid_between _ hfirst.ne_nil hfirst.head hlast

theorem displayLines_go_cons {c : Char} (hreturn : c ≠ '\r') (cs line : List Char) :
    displayLines.go (c :: cs) line =
      if isLineBreak c then line.reverse :: displayLines.go cs [] else
        displayLines.go cs (c :: line) := by
  rw [displayLines.go]
  intro cs' hc
  exact absurd hc hreturn

theorem displayLines_go_append {t : List Char} (h : ∀ c ∈ t, isLineBreak c = false)
    (rest line : List Char) :
    displayLines.go (t ++ rest) line = displayLines.go rest (t.reverse ++ line) := by
  induction t generalizing line with
  | nil => rfl
  | cons c t ih =>
    have hc := h c List.mem_cons_self
    have hreturn : c ≠ '\r' := by
      rintro rfl
      revert hc
      decide
    rw [List.cons_append, displayLines_go_cons hreturn, if_neg (by simp [hc]),
      ih fun d hd => h d (List.mem_cons_of_mem c hd)]
    simp

/-- A line feed ends a line. -/
theorem displayLines_append {t : List Char} (h : ∀ c ∈ t, isLineBreak c = false)
    (rest : List Char) : displayLines (t ++ '\n' :: rest) = t :: displayLines rest := by
  rw [displayLines, displayLines_go_append h, displayLines_go_cons (by decide),
    if_pos (by decide), List.append_nil, List.reverse_reverse, displayLines]

theorem displayLines_singleton {t : List Char} (h : ∀ c ∈ t, isLineBreak c = false)
    (hne : t ≠ []) : displayLines t = [t] := by
  have hgo := displayLines_go_append h [] []
  rw [List.append_nil, List.append_nil] at hgo
  rw [displayLines, hgo, displayLines.go, if_neg (by simpa using hne), List.reverse_reverse]

/-- Lines that hold no separator are cut apart as they were, if the last one is not empty. -/
theorem displayLines_joinPieces {lines : List (List Char)}
    (h : ∀ l ∈ lines, ∀ c ∈ l, isLineBreak c = false) (hlast : lines.getLast? ≠ some []) :
    displayLines (joinPieces ['\n'] lines) = lines := by
  induction lines with
  | nil => rfl
  | cons l lines ih =>
    cases lines with
    | nil =>
      rw [joinPieces]
      exact displayLines_singleton (h l List.mem_cons_self) (by simpa using hlast)
    | cons m lines =>
      rw [joinPieces, List.append_assoc, List.singleton_append,
        displayLines_append (h l List.mem_cons_self),
        ih (fun k hk => h k (List.mem_cons_of_mem l hk))]
      rwa [List.getLast?_cons_cons] at hlast

end CodeAtlas.Text
