import CodeAtlas.Proofs.Terraform.Stanzas
import CodeAtlas.Text.Split
import Mathlib.Order.Bounds.Basic

/-!
# Where values end

A value that starts with a quote ends behind the next quote that no backslash
escapes. Any other is read one character after another: brackets are counted outside
of strings, and the value ends at depth zero, in front of a line end, a comment or a
bracket that it did not open. A backslash in a string takes the next character with
it, even past the end of the text. The search for the assignments of a body goes on
behind each value, and so it never turns back.
-/

namespace CodeAtlas.Terraform

open CodeAtlas.Text

/-- What surrounds a character: a string or none, or in a string the backslash in front of it. -/
inductive Region
  | code
  | string
  | escape
  deriving DecidableEq, Repr

/-- How far a value has been read: how many brackets are open, counted outside of strings, and what
surrounds the next character. -/
structure Mode where
  depth : Int
  region : Region
  deriving DecidableEq, Repr

namespace Mode

/-- One character further. -/
def next (m : Mode) (c : Char) : Mode :=
  match m.region with
  | .code =>
    if c = '"' then { m with region := .string }
    else { m with depth := m.depth + bracketDelta [c] }
  | .string =>
    { m with region := if c = '\\' then .escape else if c = '"' then .code else .string }
  | .escape => { m with region := .string }

def behind (m : Mode) (cs : List Char) : Mode := cs.foldl next m

/-- A value that is read so far ends in front of what is ahead. -/
def Ends (m : Mode) (ahead : List Char) : Prop :=
  m.depth = 0 ∧
    ((m.region ≠ .escape ∧ ahead.head? = some '\n') ∨
      (m.region = .code ∧ (startsComment ahead = true ∨ ahead.head?.any isClosing = true)))

instance (m : Mode) (ahead : List Char) : Decidable (m.Ends ahead) :=
  inferInstanceAs (Decidable (_ ∧ (_ ∧ _ ∨ _ ∧ (_ ∨ _))))

/-- How much more belongs to a value. -/
def lengthFrom (m : Mode) : List Char → Nat
  | [] => if m.region = .escape then 1 else 0
  | c :: cs => if m.Ends (c :: cs) then 0 else lengthFrom (m.next c) cs + 1

end Mode

/-- How far a value has been read at the place `p`, if it starts at `start`. -/
def modeAt (text : List Char) (start p : Nat) : Mode :=
  Mode.behind ⟨0, .code⟩ (between text start p)

/-- A hash sign or two slashes. -/
def MarksComment (text : List Char) (p : Nat) : Prop :=
  text[p]? = some '#' ∨ (text[p]? = some '/' ∧ text[p + 1]? = some '/')

/-- The end of an unquoted value. Brackets close only what they opened. At depth zero no line end
is passed over but an escaped one, and outside of strings no comment; what stops the reader before
the end of the text is one of them, or a bracket that closes. At the end, a backslash in a string
still takes one character. -/
structure EndsUnquoted (text : List Char) (start stop : Nat) : Prop where
  depth_nonneg : ∀ p, start ≤ p → p ≤ stop → 0 ≤ (modeAt text start p).depth
  no_line_end : ∀ p, start ≤ p → p < stop → (modeAt text start p).depth = 0 →
    text[p]? = some '\n' → (modeAt text start p).region = .escape
  no_comment : ∀ p, start ≤ p → p < stop → (modeAt text start p).depth = 0 →
    (modeAt text start p).region = .code → ¬MarksComment text p
  stops : stop < text.length → (modeAt text start stop).depth = 0 ∧
    ((text[stop]? = some '\n' ∧ (modeAt text start stop).region ≠ .escape) ∨
      ((modeAt text start stop).region = .code ∧
        (MarksComment text stop ∨ ∃ c, text[stop]? = some c ∧ isClosing c = true)))
  runs_out : text.length ≤ stop →
    stop = text.length + if (modeAt text start text.length).region = .escape then 1 else 0

/-- A later quote with an even number of backslashes in front of it, for a string that opens at
`start`. -/
def ClosesQuote (text : List Char) (start p : Nat) : Prop :=
  start < p ∧ text[p]? = some '"' ∧ endsEscaped (between text (start + 1 : Nat) p) = false

/-- The end behind the first place with a property, or behind all when there is none. -/
def EndsBehindFirst (P : Nat → Prop) (length stop : Nat) : Prop :=
  (∃ p, IsLeast {q | P q} p ∧ stop = p + 1) ∨ ((∀ p, ¬P p) ∧ stop = length)

/-- A value that is read at `start`, and the place behind it. -/
structure IsCapture (text : List Char) (start : Nat) (value : List Char) (stop : Nat) : Prop where
  start_le : start ≤ stop
  moves : start < stop ∨ value = []
  stop_le : stop ≤ text.length + 1
  quoted : text[start]? = some '"' →
    value = between text start stop ∧
      EndsBehindFirst (ClosesQuote text start) text.length stop
  unquoted : text[start]? ≠ some '"' →
    value = trim (between text start stop) ∧ EndsUnquoted text start stop

theorem isClosing_of_isOpening {c : Char} (h : isOpening c = true) : isClosing c = false := by
  simp only [isOpening, Bool.or_eq_true, beq_iff_eq] at h
  rcases h with (rfl | rfl) | rfl <;> rfl

theorem bracketDelta_singleton (c : Char) :
    bracketDelta [c] = if isOpening c then 1 else if isClosing c then -1 else 0 := by
  cases ho : isOpening c
  · cases hc : isClosing c <;> simp [bracketDelta, ho, hc]
  · simp [bracketDelta, ho, isClosing_of_isOpening ho]

/-- An unquoted value is as long as its modes say. -/
theorem plainLength_eq_lengthFrom (depth : Nat) (inString : Bool) (cs : List Char) :
    plainLength depth inString cs =
      Mode.lengthFrom ⟨depth, if inString then .string else .code⟩ cs := by
  -- an escape takes two characters, so the induction is on the length
  induction hlength : cs.length using Nat.strongRecOn generalizing cs depth inString with
  | ind n ih =>
    subst hlength
    cases cs with
    | nil => cases inString <;> rfl
    | cons c cs =>
      have ih' := fun depth inString => ih cs.length (by simp) depth inString cs rfl
      cases inString with
      | false =>
        rw [plainLength_cons_outside, Mode.lengthFrom]
        by_cases hquote : c = '"'
        · subst hquote
          simp [ih', Mode.Ends, Mode.next, startsComment, isClosing]
        · simp only [ih', Mode.Ends, Mode.next, bracketDelta_singleton, hquote]
          cases ho : isOpening c with
          | true =>
            have hc := isClosing_of_isOpening ho
            grind
          | false =>
            cases hc : isClosing c with
            | true => cases depth <;> grind
            | false => grind
      | true =>
        by_cases hc : c = '\\'
        · subst hc
          cases cs with
          | nil => simp [plainLength, Mode.lengthFrom, Mode.Ends, Mode.next]
          | cons d cs =>
            have hshorter : cs.length < ('\\' :: d :: cs).length := by
              simp only [List.length_cons]
              omega
            rw [plainLength_cons_escape, ih cs.length hshorter depth true cs rfl]
            simp [Mode.lengthFrom, Mode.Ends, Mode.next]
        · rw [plainLength_cons_string depth hc, ih']
          simp [Mode.lengthFrom, Mode.Ends, Mode.next, hc, and_comm]

namespace Mode

theorem not_ends_nil (m : Mode) : ¬m.Ends [] := by
  simp [Ends, startsComment]

theorem lengthFrom_le (m : Mode) (cs : List Char) : m.lengthFrom cs ≤ cs.length + 1 := by
  induction cs generalizing m with
  | nil =>
    rw [lengthFrom]
    split <;> simp
  | cons c cs ih =>
    rw [lengthFrom]
    split
    · exact Nat.zero_le _
    · exact Nat.succ_le_succ (ih _)

theorem not_ends_of_lt {m : Mode} {cs : List Char} {k : Nat} (h : k < m.lengthFrom cs) :
    ¬(m.behind (cs.take k)).Ends (cs.drop k) := by
  induction cs generalizing m k with
  | nil =>
    rw [List.drop_nil]
    exact not_ends_nil _
  | cons c cs ih =>
    rw [lengthFrom] at h
    split at h
    next => exact absurd h (Nat.not_lt_zero k)
    next hgoes =>
      cases k with
      | zero => exact hgoes
      | succ k => exact ih (Nat.lt_of_succ_lt_succ h)

theorem ends_of_lengthFrom_lt {m : Mode} {cs : List Char} (h : m.lengthFrom cs < cs.length) :
    (m.behind (cs.take (m.lengthFrom cs))).Ends (cs.drop (m.lengthFrom cs)) := by
  induction cs generalizing m with
  | nil => cases h
  | cons c cs ih =>
    rw [lengthFrom] at h ⊢
    split
    next hends => exact hends
    next hgoes =>
      rw [if_neg hgoes] at h
      exact ih (Nat.lt_of_succ_lt_succ h)

theorem lengthFrom_of_length_le {m : Mode} {cs : List Char} (h : cs.length ≤ m.lengthFrom cs) :
    m.lengthFrom cs = cs.length + if (m.behind cs).region = .escape then 1 else 0 := by
  induction cs generalizing m with
  | nil => exact (Nat.zero_add _).symm
  | cons c cs ih =>
    rw [lengthFrom] at h ⊢
    split at h
    next => exact absurd h (Nat.not_succ_le_zero _)
    next hgoes =>
      rw [if_neg hgoes, ih (Nat.le_of_succ_le_succ h), List.length_cons, Nat.add_right_comm]
      rfl

/-- A bracket that would close what is not open ends the value. -/
theorem depth_next_nonneg {m : Mode} (hm : 0 ≤ m.depth) {c : Char} {cs : List Char}
    (h : ¬m.Ends (c :: cs)) : 0 ≤ (m.next c).depth := by
  obtain ⟨depth, region⟩ := m
  cases region with
  | string => exact hm
  | escape => exact hm
  | code =>
    have hclosing : depth = 0 → isClosing c = false := by
      intro hzero
      by_contra hc
      exact h ⟨hzero, .inr ⟨rfl, .inr (by simpa using hc)⟩⟩
    have hm : 0 ≤ depth := hm
    simp only [next]
    split
    · exact hm
    · rw [bracketDelta_singleton]
      grind

theorem depth_behind_nonneg {m : Mode} (hm : 0 ≤ m.depth) {cs : List Char} {k : Nat}
    (h : k ≤ m.lengthFrom cs) : 0 ≤ (m.behind (cs.take k)).depth := by
  induction cs generalizing m k with
  | nil =>
    rw [List.take_nil]
    exact hm
  | cons c cs ih =>
    cases k with
    | zero => exact hm
    | succ k =>
      rw [lengthFrom] at h
      split at h
      next => exact absurd h (Nat.not_succ_le_zero k)
      next hgoes => exact ih (depth_next_nonneg hm hgoes) (Nat.le_of_succ_le_succ h)

end Mode

theorem plainLength_le (depth : Nat) (inString : Bool) (cs : List Char) :
    plainLength depth inString cs ≤ cs.length + 1 := by
  rw [plainLength_eq_lengthFrom]
  exact Mode.lengthFrom_le _ cs

theorem startsComment_iff (ahead : List Char) :
    startsComment ahead = true ↔
      ahead[0]? = some '#' ∨ (ahead[0]? = some '/' ∧ ahead[1]? = some '/') := by
  fun_cases startsComment ahead with
  | case1 => simp
  | case2 => simp
  | case3 hhash hslashes => rcases ahead with _ | ⟨c, _ | ⟨d, cs⟩⟩ <;> simp_all

theorem startsComment_drop (text : List Char) (p : Nat) :
    startsComment (text.drop p) = true ↔ MarksComment text p := by
  rw [startsComment_iff, List.getElem?_drop, List.getElem?_drop, MarksComment, Nat.add_zero]

theorem ends_drop_iff (m : Mode) (text : List Char) (p : Nat) :
    m.Ends (text.drop p) ↔ m.depth = 0 ∧ ((text[p]? = some '\n' ∧ m.region ≠ .escape) ∨
      (m.region = .code ∧
        (MarksComment text p ∨ ∃ c, text[p]? = some c ∧ isClosing c = true))) := by
  rw [Mode.Ends, startsComment_drop, List.head?_drop, Option.any_eq_true,
    and_comm (b := text[p]? = some '\n')]

theorem modeAt_add (text : List Char) (start k : Nat) :
    modeAt text start (start + k) = Mode.behind ⟨0, .code⟩ ((text.drop start).take k) := by
  rw [modeAt, between_add]

theorem endsUnquoted_plainLength {text : List Char} {start : Nat} (h : start ≤ text.length) :
    EndsUnquoted text start (start + plainLength 0 false (text.drop start)) := by
  have hlength : plainLength 0 false (text.drop start) =
      Mode.lengthFrom ⟨0, .code⟩ (text.drop start) :=
    plainLength_eq_lengthFrom 0 false (text.drop start)
  rw [hlength]
  have hgoes : ∀ p, start ≤ p → p < start + Mode.lengthFrom ⟨0, .code⟩ (text.drop start) →
      ¬(modeAt text start p).Ends (text.drop p) := by
    intro p hp hlt
    obtain ⟨k, rfl⟩ := Nat.exists_eq_add_of_le hp
    rw [modeAt_add, ← List.drop_drop]
    exact Mode.not_ends_of_lt (Nat.lt_of_add_lt_add_left hlt)
  refine ⟨?_, ?_, ?_, ?_, ?_⟩
  · intro p hp hle
    obtain ⟨k, rfl⟩ := Nat.exists_eq_add_of_le hp
    rw [modeAt_add]
    exact Mode.depth_behind_nonneg (Int.le_refl 0) (Nat.le_of_add_le_add_left hle)
  · intro p hp hlt hdepth hfeed
    by_contra hregion
    exact hgoes p hp hlt ((ends_drop_iff ..).mpr ⟨hdepth, .inl ⟨hfeed, hregion⟩⟩)
  · intro p hp hlt hdepth hregion hmark
    exact hgoes p hp hlt ((ends_drop_iff ..).mpr ⟨hdepth, .inr ⟨hregion, .inl hmark⟩⟩)
  · intro hlt
    rw [← ends_drop_iff, ← List.drop_drop, modeAt_add]
    apply Mode.ends_of_lengthFrom_lt
    rw [List.length_drop]
    omega
  · intro hle
    have hall : Mode.lengthFrom ⟨0, .code⟩ (text.drop start) = _ :=
      Mode.lengthFrom_of_length_le (by rw [List.length_drop]; omega)
    obtain ⟨k, hk⟩ := Nat.exists_eq_add_of_le h
    have hmode := modeAt_add text start k
    rw [← hk, List.take_of_length_le (by rw [List.length_drop]; omega)] at hmode
    rw [List.length_drop] at hall
    rw [hmode]
    omega

theorem endsEscaped_cons {c : Char} (hc : c ≠ '\\') (t : List Char) :
    endsEscaped (c :: t) = endsEscaped t := by
  have hnone : [c].takeWhile (· == '\\') = [] := List.takeWhile_cons_of_neg (by simpa using hc)
  rw [endsEscaped, List.reverse_cons, length_takeWhile_append, hnone, List.length_nil, ite_self,
    Nat.add_zero, endsEscaped]

/-- A backslash and the character that it escapes change nothing for what follows them. -/
theorem endsEscaped_escape (c : Char) (t : List Char) :
    endsEscaped ('\\' :: c :: t) = endsEscaped t := by
  have heven : ([c, '\\'].takeWhile (· == '\\')).length % 2 = 0 := by
    by_cases hc : c = '\\'
    · subst hc
      rfl
    · rw [List.takeWhile_cons_of_neg (by simpa using hc)]
      rfl
  rw [endsEscaped, List.reverse_cons, List.reverse_cons, List.append_assoc,
    List.singleton_append, length_takeWhile_append, endsEscaped]
  split
  · rw [Nat.add_mod, heven, Nat.add_zero, Nat.mod_mod]
  · rfl

/-- A quote that no backslash escapes. -/
def BareQuote (cs : List Char) (p : Nat) : Prop :=
  cs[p]? = some '"' ∧ endsEscaped (cs.take p) = false

theorem EndsBehindFirst.add {P Q : Nat → Prop} {length stop k : Nat}
    (h : EndsBehindFirst P length stop) (hfront : ∀ p < k, ¬Q p)
    (hshift : ∀ p, Q (p + k) ↔ P p) : EndsBehindFirst Q (length + k) (stop + k) := by
  have hback : ∀ p, Q p → ∃ q, p = q + k ∧ P q := by
    intro p hp
    have hle : k ≤ p := by
      by_contra hlt
      exact hfront p (by omega) hp
    obtain ⟨q, rfl⟩ : ∃ q, p = q + k := ⟨p - k, by omega⟩
    exact ⟨q, rfl, (hshift q).mp hp⟩
  rcases h with ⟨p, ⟨hp, hleast⟩, rfl⟩ | ⟨hnone, rfl⟩
  · refine .inl ⟨p + k, ⟨(hshift p).mpr hp, ?_⟩, by omega⟩
    intro p' hp'
    obtain ⟨q, rfl, hq⟩ := hback p' hp'
    exact Nat.add_le_add_right (hleast hq) k
  · refine .inr ⟨?_, rfl⟩
    intro p' hp'
    obtain ⟨q, rfl, hq⟩ := hback p' hp'
    exact hnone q hq

theorem endsBehindFirst_quotedLength (cs : List Char) :
    EndsBehindFirst (BareQuote cs) cs.length (quotedLength cs) := by
  fun_induction quotedLength cs with
  | case1 => exact .inr ⟨by simp [BareQuote], rfl⟩
  | case2 c cs ih =>
    refine ih.add (k := 2) ?_ ?_
    · intro p hp hbare
      obtain rfl | rfl : p = 0 ∨ p = 1 := by omega
      · simp [BareQuote] at hbare
      · simp [BareQuote, endsEscaped] at hbare
    · intro p
      simp [BareQuote, endsEscaped_escape]
  | case3 cs hnot =>
    refine .inl ⟨0, ⟨by simp [BareQuote, endsEscaped], ?_⟩, rfl⟩
    intro p _
    exact Nat.zero_le p
  | case4 c cs hnot hquote ih =>
    refine ih.add (k := 1) ?_ ?_
    · intro p hp hbare
      obtain rfl : p = 0 := by omega
      simp [BareQuote, hquote] at hbare
    · intro p
      by_cases hc : c = '\\'
      · -- the text ends here, for otherwise the backslash would escape the next character
        have hnil : cs = [] := by
          cases cs with
          | nil => rfl
          | cons d cs => exact (hnot d cs hc rfl).elim
        simp [BareQuote, hnil]
      · simp [BareQuote, endsEscaped_cons hc]

theorem endsQuoted_quotedLength {text cs : List Char} {start : Nat}
    (h : text.drop start = '"' :: cs) :
    EndsBehindFirst (ClosesQuote text start) text.length (start + (quotedLength cs + 1)) := by
  have hdrop : text.drop (start + 1) = cs := by
    rw [← List.drop_drop, h]
    rfl
  have hlength : text.length = cs.length + (start + 1) := by
    have hcount := congrArg List.length h
    rw [List.length_drop, List.length_cons] at hcount
    omega
  have hstop : start + (quotedLength cs + 1) = quotedLength cs + (start + 1) := by omega
  rw [hlength, hstop]
  apply (endsBehindFirst_quotedLength cs).add
  · intro p hp hcloses
    exact absurd hcloses.1 (by omega)
  · intro p
    have hlt : start < p + (start + 1) := by omega
    have hget : text[p + (start + 1)]? = cs[p]? := by
      rw [← hdrop, List.getElem?_drop, Nat.add_comm]
    have htake : between text (start + 1 : Nat) (p + (start + 1) : Nat) = cs.take p := by
      rw [between_natCast, hdrop, Nat.add_sub_cancel]
    rw [ClosesQuote, hget, htake, BareQuote, and_iff_right hlt]

theorem captureAt?_natCast (text : List Char) (start : Nat) :
    captureAt? text start = some ((capture (text.drop start)).1,
      ((start + (capture (text.drop start)).2 : Nat) : Int)) := by
  have htaken : between text start (start + (capture (text.drop start)).2 : Int) =
      (text.drop start).take (capture (text.drop start)).2 := by
    rw [← Int.natCast_add, between_add]
  simp only [captureAt?, readingFrom?_of_nonneg, Option.map_some, htaken]
  by_cases hquote : (text.drop start).head? = some '"'
  · obtain ⟨cs, hcs⟩ : ∃ cs, text.drop start = '"' :: cs := List.head?_eq_some_iff.mp hquote
    simp [hcs, capture]
  · rw [if_neg hquote, capture_of_unquoted hquote, Int.natCast_add]

theorem isCapture_capture (text : List Char) {start : Nat} (h : start < text.length) :
    IsCapture text start (capture (text.drop start)).1
      (start + (capture (text.drop start)).2) := by
  have hhead : text[start]? = (text.drop start).head? := by rw [List.head?_drop]
  by_cases hquote : (text.drop start).head? = some '"'
  · obtain ⟨cs, hcs⟩ : ∃ cs, text.drop start = '"' :: cs := List.head?_eq_some_iff.mp hquote
    have hends := endsQuoted_quotedLength hcs
    have hread : capture (text.drop start) =
        ((text.drop start).take (quotedLength cs + 1), quotedLength cs + 1) := by
      rw [hcs]
      rfl
    rw [hread]
    refine ⟨by simp, .inl (by simp), ?_, ?_, fun hne => absurd (hhead.trans hquote) hne⟩
    · rcases hends with ⟨p, ⟨hp, -⟩, hstop⟩ | ⟨-, hstop⟩
      · have hlt := (List.getElem?_eq_some_iff.mp hp.2.1).1
        omega
      · omega
    · intro _
      exact ⟨(between_add ..).symm, hends⟩
  · rw [capture_of_unquoted hquote]
    refine ⟨by simp, ?_, ?_, fun hq => absurd (hhead.symm.trans hq) hquote, ?_⟩
    · rcases Nat.eq_zero_or_pos (plainLength 0 false (text.drop start)) with hzero | hpos
      · exact .inr (by simp [hzero])
      · exact .inl (Nat.lt_add_of_pos_right hpos)
    · have hle := plainLength_le 0 false (text.drop start)
      rw [List.length_drop] at hle
      dsimp only
      omega
    · intro _
      exact ⟨congrArg trim (between_add ..).symm, endsUnquoted_plainLength (Nat.le_of_lt h)⟩

/-- Where the search stands: how many brackets are open, and where the next line starts. -/
structure Search where
  depth : Nat
  place : Nat
  deriving DecidableEq, Repr

/-- The line that starts at a place, without its end. -/
def lineFrom (body : List Char) (p : Nat) : List Char := (body.drop p).takeWhile (· != '\n')

/-- The place behind the first line end from a place on, or the end of the body. -/
def behindLine (body : List Char) (p : Nat) : Nat :=
  if p + (lineFrom body p).length < body.length then p + (lineFrom body p).length + 1
  else body.length

namespace Search

/-- What the search finds on the line where it stands, and where it stands then. None at the end. -/
def turn? (body : List Char) (s : Search) : Option (Option (String × String) × Search) :=
  if s.place < body.length then
    let line := lineFrom body s.place
    match if s.depth = 0 then assignment? line else none with
    | some (key, after) =>
      (captureAt? body (s.place + (line.length - after.length) : Nat)).map fun (value, stop) =>
        (some (key, String.ofList value), ⟨0, behindLine body stop.toNat⟩)
    | none => some (none, ⟨(s.depth + bracketDelta line).toNat, s.place + line.length + 1⟩)
  else none

/-- The turns of the search from a state on, to the end of the body. -/
inductive Run (body : List Char) : Search → List (Option (String × String) × Search) → Prop
  | stop {s : Search} : turn? body s = none → Run body s []
  | go {s next : Search} {found : Option (String × String)}
    {turns : List (Option (String × String) × Search)} :
    turn? body s = some (found, next) → Run body next turns → Run body s ((found, next) :: turns)

end Search

theorem nextLine_drop (body : List Char) (p : Nat) :
    nextLine (body.drop p) = body.drop (p + (lineFrom body p).length + 1) := by
  have hbehind : (body.drop p).dropWhile (· != '\n') =
      (body.drop p).drop (lineFrom body p).length := by
    conv_rhs => rw [← List.takeWhile_append_dropWhile (p := (· != '\n')) (l := body.drop p)]
    exact List.drop_left.symm
  rw [nextLine, hbehind, List.drop_drop, List.drop_drop, Nat.add_assoc]

theorem drop_behindLine (body : List Char) (p : Nat) :
    body.drop (behindLine body p) = nextLine (body.drop p) := by
  rw [nextLine_drop, behindLine]
  split
  · rfl
  · rw [List.drop_length, List.drop_of_length_le (by omega)]

theorem lt_behindLine {body : List Char} {p q : Nat} (hp : p < body.length) (hq : p ≤ q) :
    p < behindLine body q := by
  rw [behindLine]
  split <;> omega

namespace Search

variable {body : List Char} {s next : Search} {found : Option (String × String)}

/-- A turn reads the value of an assignment, or passes over a line. -/
theorem turn?_cases (h : turn? body s = some (found, next)) :
    s.place < body.length ∧
      ((∃ key after, s.depth = 0 ∧ assignment? (lineFrom body s.place) = some (key, after) ∧
        let start := s.place + ((lineFrom body s.place).length - after.length)
        found = some (key, String.ofList (capture (body.drop start)).1) ∧
          next = ⟨0, behindLine body (start + (capture (body.drop start)).2)⟩) ∨
      ((s.depth = 0 → assignment? (lineFrom body s.place) = none) ∧ found = none ∧
        next = ⟨(s.depth + bracketDelta (lineFrom body s.place)).toNat,
          s.place + (lineFrom body s.place).length + 1⟩)) := by
  rw [turn?] at h
  split at h
  next hplace =>
    refine ⟨hplace, ?_⟩
    dsimp only at h
    split at h
    next key after hassign =>
      have hdepth : s.depth = 0 := by
        by_contra hne
        rw [if_neg hne] at hassign
        cases hassign
      rw [if_pos hdepth] at hassign
      rw [captureAt?_natCast, Option.map_some, Int.toNat_natCast] at h
      cases h
      exact .inl ⟨key, after, hdepth, hassign, rfl, rfl⟩
    next hnone =>
      cases h
      refine .inr ⟨fun hdepth => ?_, rfl, rfl⟩
      rwa [if_pos hdepth] at hnone
  next => cases h

theorem turn?_eq_none_iff : turn? body s = none ↔ body.length ≤ s.place := by
  rw [turn?]
  split
  next hplace =>
    dsimp only
    refine iff_of_false ?_ (by omega)
    split
    · rw [captureAt?_natCast]
      simp
    · simp
  next hplace => exact iff_of_true rfl (by omega)

theorem place_lt_of_turn? (h : turn? body s = some (found, next)) : s.place < next.place := by
  obtain ⟨hplace, ⟨key, after, -, -, -, rfl⟩ | ⟨-, -, rfl⟩⟩ := turn?_cases h
  · exact lt_behindLine hplace (by omega)
  · simp only
    omega

/-- A turn finds what is read first, and leaves the rest to the next state. -/
theorem assignmentsAt_of_turn? (h : turn? body s = some (found, next)) :
    assignmentsAt s.depth (body.drop s.place) =
      found.toList ++ assignmentsAt next.depth (body.drop next.place) := by
  obtain ⟨hplace, ⟨key, after, hdepth, hassign, rfl, rfl⟩ | ⟨hnone, rfl, rfl⟩⟩ := turn?_cases h
  · rw [hdepth, assignmentsAt_of_assignment? hassign]
    simp [drop_behindLine, List.drop_drop, lineFrom]
  · have hne : body.drop s.place ≠ [] := by
      rw [Ne, List.drop_eq_nil_iff]
      omega
    rw [assignmentsAt_of_none hne hnone, nextLine_drop]
    rfl

theorem Run.found_eq {turns : List (Option (String × String) × Search)} (h : Run body s turns) :
    turns.filterMap Prod.fst = assignmentsAt s.depth (body.drop s.place) := by
  induction h with
  | stop hnone =>
    rw [List.drop_of_length_le (turn?_eq_none_iff.mp hnone), assignmentsAt]
    rfl
  | @go s next found turns hturn hrun ih =>
    rw [assignmentsAt_of_turn? hturn, ← ih]
    cases found <;> rfl

/-- From every state the search comes to the end of the body. -/
theorem exists_run (body : List Char) (s : Search) : ∃ turns, Run body s turns := by
  induction hleft : body.length - s.place using Nat.strongRecOn generalizing s with
  | ind n ih =>
    subst hleft
    cases hturn : turn? body s with
    | none => exact ⟨[], .stop hturn⟩
    | some t =>
      obtain ⟨found, next⟩ := t
      have hlt := place_lt_of_turn? hturn
      have hplace := (turn?_cases hturn).1
      obtain ⟨turns, hrun⟩ := ih (body.length - next.place) (by omega) next rfl
      exact ⟨(found, next) :: turns, .go hturn hrun⟩

end Search

/-- At every place of a text a value is read, and it ends at the first place that can end it. So the
search for assignments moves on with every turn until it has come to the end of the text, and what
it finds are the assignments. -/
theorem captures_end_and_search_advances (text : List Char) :
    (∀ start < text.length, ∃ (value : List Char) (stop : Nat),
      captureAt? text start = some (value, (stop : Int)) ∧ IsCapture text start value stop) ∧
    (∀ s, Search.turn? text s = none ↔ text.length ≤ s.place) ∧
    (∀ s found next, Search.turn? text s = some (found, next) → s.place < next.place) ∧
    ∃ turns, Search.Run text ⟨0, 0⟩ turns ∧ turns.filterMap Prod.fst = assignments text := by
  refine ⟨?_, fun s => Search.turn?_eq_none_iff, fun s found next => Search.place_lt_of_turn?, ?_⟩
  · intro start hstart
    exact ⟨_, _, captureAt?_natCast text start, isCapture_capture text hstart⟩
  · obtain ⟨turns, hrun⟩ := Search.exists_run text ⟨0, 0⟩
    exact ⟨turns, hrun, hrun.found_eq⟩

/-- An unquoted text with a string in it, which ends with a backslash. -/
def openString : List Char := "x \"a\\".toList

/-- The backslash takes a character that is not there. -/
theorem captures_end_openString :
    0 < openString.length ∧ captureAt? openString (0 : Nat) = some (openString, ((6 : Nat) : Int)) ∧
      IsCapture openString 0 openString 6 := by
  have hlength : 0 < openString.length := by decide +kernel
  have hread : captureAt? openString (0 : Nat) = some (openString, ((6 : Nat) : Int)) := by
    decide +kernel
  obtain ⟨value, stop, hvalue, hcapture⟩ :=
    (captures_end_and_search_advances openString).1 0 hlength
  obtain ⟨hsame, hstop⟩ : value = openString ∧ (stop : Int) = (6 : Nat) :=
    Prod.mk.inj (Option.some.inj (hvalue.symm.trans hread))
  obtain rfl : stop = 6 := Int.ofNat.inj hstop
  exact ⟨hlength, hread, hsame ▸ hcapture⟩

end CodeAtlas.Terraform
