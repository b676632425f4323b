import CodeAtlas.Value.Json.Parser
import Mathlib.Data.List.TakeWhile

/-!
# Texts within the limits of the reader

The reader refuses brackets that are nested too deeply and integers with too many
digits. It does so only for a reason that can be seen in the text: somewhere more
brackets are open at once than allowed, or an integer stands there that is too long,
both outside of strings. A count of open brackets goes through the text beside the
reader. Where the reader takes a value, the count ends as it began, so that what is
wrong further on is wrong at a place whose count is known.
-/

namespace CodeAtlas.Value.Json

/-- Whether a place of a text is outside of strings, inside of one, or behind a backslash in one. -/
inductive Mode
  | outside
  | inside
  | escaped
  deriving DecidableEq, Repr

/-- How many brackets are open at a place of a text, and in which mode it is. -/
structure Standing where
  depth : Nat
  mode : Mode
  deriving DecidableEq, Repr

namespace Standing

def step (s : Standing) (c : Char) : Standing :=
  match s.mode with
  | .escaped => ⟨s.depth, .inside⟩
  | .inside =>
    if c = '"' then ⟨s.depth, .outside⟩
    else if c = '\\' then ⟨s.depth, .escaped⟩
    else s
  | .outside =>
    if c = '"' then ⟨s.depth, .inside⟩
    else if c = '[' ∨ c = '\x7b' then ⟨s.depth + 1, .outside⟩
    else if c = ']' ∨ c = '\x7d' then ⟨s.depth - 1, .outside⟩
    else s

def after (s : Standing) (cs : List Char) : Standing := cs.foldl step s

/-- The standing at the start of a text. -/
def start : Standing := ⟨0, .outside⟩

theorem after_append (s : Standing) (a b : List Char) : s.after (a ++ b) = (s.after a).after b :=
  List.foldl_append

theorem after_cons (s : Standing) (c : Char) (cs : List Char) :
    s.after (c :: cs) = (s.step c).after cs := rfl

theorem depth_step_le (s : Standing) (c : Char) : (s.step c).depth ≤ s.depth + 1 := by
  grind [step]

theorem mode_step {s t : Standing} (h : s.mode = t.mode) (c : Char) :
    (s.step c).mode = (t.step c).mode := by
  obtain ⟨d, m⟩ := s
  obtain ⟨e, m'⟩ := t
  obtain rfl : m = m' := h
  cases m <;> simp only [step] <;> split_ifs <;> rfl

/-- Brackets that are open do not matter for the strings. -/
theorem mode_after {s t : Standing} (h : s.mode = t.mode) (cs : List Char) :
    (s.after cs).mode = (t.after cs).mode := by
  induction cs generalizing s t with
  | nil => exact h
  | cons c cs ih => exact ih (mode_step h c)

/-- A text opens no more brackets than it has characters. -/
theorem depth_after_le (s : Standing) (cs : List Char) :
    (s.after cs).depth ≤ s.depth + cs.length := by
  induction cs generalizing s with
  | nil => exact Nat.le_refl _
  | cons c cs ih =>
    have hstep := s.depth_step_le c
    have hrest := ih (s.step c)
    rw [after_cons, List.length_cons]
    omega

end Standing

/-- Somewhere in the text more than so many brackets are open at once. -/
def NestsBeyond (limit : Nat) (text : List Char) : Prop :=
  ∃ front, front <+: text ∧ limit < (Standing.start.after front).depth

/-- The characters behind which a value may begin. -/
def openers : List Char := [',', ':', '[', '\x7b']

/-- A value may begin behind such a text: it is empty, or it ends with an opener or a blank. -/
def MayPrecede (front : List Char) : Prop :=
  ∀ c ∈ front.getLast?, isBlank c = true ∨ c ∈ openers

/-- Digits that are too many for an integer, where what follows makes them no other number. -/
structure IsLongInteger (ds rest : List Char) : Prop where
  digits : ∀ c ∈ ds, isDigit c = true
  no_zero : ds.head? ≠ some '0'
  long : Text.digitLimit < ds.length
  no_digit : ∀ c ∈ rest.head?, isDigit c = false
  no_fraction : fractionDigits rest = ([], rest)
  no_exponent : exponent? rest = none

/-- Outside of its strings, where a value may begin, the text holds an integer with too many
digits. -/
def HasLongInteger (text : List Char) : Prop :=
  ∃ front sign ds rest, text = front ++ (sign ++ (ds ++ rest)) ∧ MayPrecede front ∧
    (Standing.start.after front).mode = .outside ∧ (sign = [] ∨ sign = ['-']) ∧
    IsLongInteger ds rest

theorem NestsBeyond.lt_length {limit : Nat} {text : List Char} (h : NestsBeyond limit text) :
    limit < text.length := by
  obtain ⟨front, hfront, hlimit⟩ := h
  have hdepth := Standing.depth_after_le Standing.start front
  have hlength := hfront.length_le
  rw [Standing.start, Nat.zero_add] at hdepth
  exact Nat.lt_of_lt_of_le hlimit (hdepth.trans hlength)

theorem HasLongInteger.lt_length {text : List Char} (h : HasLongInteger text) :
    Text.digitLimit < text.length := by
  obtain ⟨front, sign, ds, rest, rfl, -, -, -, hlong⟩ := h
  have hlimit := hlong.long
  rw [List.length_append, List.length_append, List.length_append]
  omega

/-- The text leads from `a` brackets more than some number to `b` more, and from outside of strings
to outside. -/
def Passes (a b : Nat) (used : List Char) : Prop :=
  ∀ d, Standing.after ⟨d + a, .outside⟩ used = ⟨d + b, .outside⟩

/-- The characters that change the standing outside of strings. -/
def marks : List Char := ['"', '[', ']', '\x7b', '\x7d']

theorem not_mem_marks {p : Char → Bool} (h : ∀ c ∈ marks, p c = false) {c : Char}
    (hc : p c = true) : c ∉ marks := by
  intro hmark
  rw [h c hmark] at hc
  contradiction

namespace Passes

theorem append {a b c : Nat} {used more : List Char} (h : Passes a b used)
    (h' : Passes b c more) : Passes a c (used ++ more) := by
  intro d
  rw [Standing.after_append, h, h']

theorem raise {a b : Nat} {used : List Char} (h : Passes a b used) (k : Nat) :
    Passes (a + k) (b + k) used := by
  intro d
  have hd := h (d + k)
  rwa [Nat.add_assoc, Nat.add_assoc, Nat.add_comm k a, Nat.add_comm k b] at hd

theorem plain {used : List Char} (h : ∀ c ∈ used, c ∉ marks) (a : Nat) : Passes a a used := by
  intro d
  induction used with
  | nil => rfl
  | cons c used ih =>
    have hc := h c List.mem_cons_self
    simp only [marks, List.mem_cons, List.not_mem_nil, or_false, not_or] at hc
    have hstep : Standing.step ⟨d + a, .outside⟩ c = ⟨d + a, .outside⟩ := by
      simp [Standing.step, hc]
    rw [Standing.after_cons, hstep]
    exact ih fun x hx => h x (List.mem_cons_of_mem c hx)

theorem blanks (a : Nat) (cs : List Char) : Passes a a (cs.takeWhile isBlank) := by
  apply plain
  intro c hc
  exact not_mem_marks (by simp [marks, isBlank]) (List.mem_takeWhile_imp hc)

theorem digits {ds : List Char} (h : ∀ c ∈ ds, isDigit c = true) : Passes 0 0 ds := by
  apply plain
  intro c hc
  exact not_mem_marks (by simp [marks, isDigit]) (h c hc)

theorem opening {c : Char} (h : c = '[' ∨ c = '\x7b') : Passes 0 1 [c] := by
  rcases h with rfl | rfl <;> exact fun _ => rfl

theorem closing {c : Char} (h : c = ']' ∨ c = '\x7d') : Passes 1 0 [c] := by
  rcases h with rfl | rfl <;> exact fun _ => rfl

end Passes

/-- What stands in front of `rest` passes from `a` to `b`. -/
def Leads (a b : Nat) (cs rest : List Char) : Prop := ∃ used, cs = used ++ rest ∧ Passes a b used

/-- What stands in front of `rest` opens `b` brackets, and a value may begin behind it. -/
def Opens (b : Nat) (cs rest : List Char) : Prop :=
  ∃ used, cs = used ++ rest ∧ Passes 0 b used ∧ MayPrecede used

theorem Leads.refl (a : Nat) (cs : List Char) : Leads a a cs cs := ⟨[], rfl, fun _ => rfl⟩

theorem Leads.trans {a b c : Nat} {cs mid rest : List Char} (h : Leads a b cs mid)
    (h' : Leads b c mid rest) : Leads a c cs rest := by
  obtain ⟨used, rfl, hused⟩ := h
  obtain ⟨more, rfl, hmore⟩ := h'
  exact ⟨used ++ more, by rw [List.append_assoc], hused.append hmore⟩

theorem Leads.raise {a b : Nat} {cs rest : List Char} (h : Leads a b cs rest) (k : Nat) :
    Leads (a + k) (b + k) cs rest := by
  obtain ⟨used, hcs, hused⟩ := h
  exact ⟨used, hcs, hused.raise k⟩

theorem Opens.leads {b : Nat} {cs rest : List Char} (h : Opens b cs rest) : Leads 0 b cs rest := by
  obtain ⟨used, hcs, hused, -⟩ := h
  exact ⟨used, hcs, hused⟩

theorem leads_cons {a b : Nat} {c : Char} (h : Passes a b [c]) (cs : List Char) :
    Leads a b (c :: cs) cs := ⟨[c], rfl, h⟩

theorem leads_digits (cs : List Char) : Leads 0 0 cs (cs.dropWhile isDigit) :=
  ⟨cs.takeWhile isDigit, List.takeWhile_append_dropWhile.symm,
    Passes.digits fun _ => List.mem_takeWhile_imp⟩

theorem mayPrecede_append {front more : List Char} (hfront : MayPrecede front)
    (hmore : MayPrecede more) : MayPrecede (front ++ more) := by
  intro c hc
  rw [List.getLast?_append, Option.mem_def, Option.or_eq_some_iff] at hc
  rcases hc with hc | ⟨-, hc⟩
  · exact hmore c hc
  · exact hfront c hc

theorem mayPrecede_blanks (cs : List Char) : MayPrecede (cs.takeWhile isBlank) :=
  fun _ hc => Or.inl (List.mem_takeWhile_imp (List.mem_of_getLast? hc))

theorem mayPrecede_concat {c : Char} (h : c ∈ openers) (front : List Char) :
    MayPrecede (front ++ [c]) := by
  intro x hx
  rw [List.getLast?_concat, Option.mem_some_iff] at hx
  exact Or.inr (hx ▸ h)

theorem opens_skipBlanks (cs : List Char) : Opens 0 cs (skipBlanks cs) :=
  ⟨cs.takeWhile isBlank, List.takeWhile_append_dropWhile.symm, Passes.blanks 0 cs,
    mayPrecede_blanks cs⟩

theorem leads_skipBlanks (cs : List Char) : Leads 0 0 cs (skipBlanks cs) :=
  (opens_skipBlanks cs).leads

/-- A value may begin behind an opener, and behind the blanks there. -/
theorem Leads.opens {a b : Nat} {c : Char} {cs mid : List Char} (h : Leads 0 a cs (c :: mid))
    (hpass : Passes a b [c]) (hc : c ∈ openers) : Opens b cs (skipBlanks mid) := by
  obtain ⟨used, rfl, hused⟩ := h
  refine ⟨(used ++ [c]) ++ mid.takeWhile isBlank, ?_, (hused.append hpass).append (.blanks b mid),
    mayPrecede_append (mayPrecede_concat hc used) (mayPrecede_blanks mid)⟩
  rw [List.append_assoc, List.append_assoc, List.singleton_append, skipBlanks,
    List.takeWhile_append_dropWhile]

/-- Whatever the number of open brackets is, it grows by more than `levels`. -/
def Climbs (levels : Nat) (cs : List Char) : Prop :=
  ∀ d, ∃ front, front <+: cs ∧ d + levels < (Standing.after ⟨d, .outside⟩ front).depth

theorem Climbs.of_opens {levels b : Nat} {cs rest : List Char} (h : Climbs levels rest)
    (hopens : Opens b cs rest) : Climbs (levels + b) cs := by
  obtain ⟨used, rfl, hused, -⟩ := hopens
  intro d
  obtain ⟨front, hfront, hdepth⟩ := h (d + b)
  refine ⟨used ++ front, (List.prefix_append_right_inj used).mpr hfront, ?_⟩
  have hd : Standing.after ⟨d, .outside⟩ used = ⟨d + b, .outside⟩ := hused d
  rw [Standing.after_append, hd]
  omega

theorem HasLongInteger.of_opens {b : Nat} {cs rest : List Char} (h : HasLongInteger rest)
    (hopens : Opens b cs rest) : HasLongInteger cs := by
  obtain ⟨used, rfl, hused, hprecede⟩ := hopens
  obtain ⟨front, sign, ds, tail, rfl, hfront, hmode, hsign, hlong⟩ := h
  refine ⟨used ++ front, sign, ds, tail, by rw [List.append_assoc],
    mayPrecede_append hprecede hfront, ?_, hsign, hlong⟩
  have hstart : Standing.start.after used = ⟨0 + b, .outside⟩ := hused 0
  have hsame : Standing.mode ⟨0 + b, .outside⟩ = Standing.start.mode := rfl
  rw [Standing.after_append, hstart, Standing.mode_after hsame, hmode]

/-- A fault that is about a limit has its reason in the text. -/
structure Justified (levels : Nat) (cs : List Char) (f : Fault) : Prop where
  climbs : f.problem = .deepNesting → Climbs levels cs
  longInteger : f.problem = .longNumber → HasLongInteger cs

namespace Justified

theorem of_opens {levels b : Nat} {cs rest : List Char} {f : Fault} (h : Justified levels rest f)
    (hopens : Opens b cs rest) : Justified (levels + b) cs f :=
  ⟨fun hf => (h.climbs hf).of_opens hopens, fun hf => (h.longInteger hf).of_opens hopens⟩

/-- A fault that is about no limit needs no reason. -/
theorem of_ne {p : Problem} (h : p ≠ .deepNesting ∧ p ≠ .longNumber) (left levels : Nat)
    (cs : List Char) : Justified levels cs ⟨p, left⟩ :=
  ⟨fun hf => absurd hf h.1, fun hf => absurd hf h.2⟩

end Justified

/-- The text leads from inside of a string back into it. -/
def StaysInside (cs : List Char) : Prop :=
  ∀ d, Standing.after ⟨d, .inside⟩ cs = ⟨d, .inside⟩

theorem Standing.step_inside {c : Char} (hquote : c ≠ '"') (hslash : c ≠ '\\') (d : Nat) :
    Standing.step ⟨d, .inside⟩ c = ⟨d, .inside⟩ := by
  simp [Standing.step, hquote, hslash]

theorem staysInside_hexDigits {cs : List Char} (h : ∀ c ∈ cs, (hexValue? c).isSome) :
    StaysInside cs := by
  intro d
  induction cs with
  | nil => rfl
  | cons c cs ih =>
    have hc := h c List.mem_cons_self
    have hquote : c ≠ '"' := by rintro rfl; contradiction
    have hslash : c ≠ '\\' := by rintro rfl; contradiction
    rw [Standing.after_cons, Standing.step_inside hquote hslash]
    exact ih fun x hx => h x (List.mem_cons_of_mem c hx)

theorem staysInside_unit {a b c e : Char} {n : Nat} (h : unit? a b c e = some n) :
    StaysInside [a, b, c, e] := by
  simp only [unit?, Option.bind_eq_bind, Option.bind_eq_some_iff] at h
  obtain ⟨na, ha, nb, hb, nc, hc, ne, he, -⟩ := h
  apply staysInside_hexDigits
  simp [ha, hb, hc, he]

/-- What a code unit escape takes leads back into the string. -/
theorem exists_of_unitEscape? {cs : List Char} {c : Char} {taken : Nat}
    (h : unitEscape? cs = .char c taken) :
    ∃ passed tail, cs = passed ++ tail ∧ passed.length = taken ∧ StaysInside passed := by
  unfold unitEscape? at h
  split at h
  next x y z w e rest =>
    split at h
    · contradiction
    · next high hhigh =>
      have hfour : StaysInside [x, y, z, w] := staysInside_unit hhigh
      -- a half without its partner is taken alone, in three of the branches
      have hsingle : UnitEscape.char (unitChar high) 4 = .char c taken →
          ∃ passed tail, x :: y :: z :: w :: e :: rest = passed ++ tail ∧
            passed.length = taken ∧ StaysInside passed := by
        intro hchar
        cases hchar
        exact ⟨[x, y, z, w], e :: rest, rfl, rfl, hfour⟩
      split at h
      · split at h
        next x' y' z' w' e' rest' heq =>
          split at h
          · contradiction
          · next low hlow =>
            split at h
            · next ch hch =>
              cases h
              refine ⟨[x, y, z, w] ++ (['\\', 'u'] ++ [x', y', z', w']), e' :: rest', ?_, rfl, ?_⟩
              · rw [heq]
                rfl
              · intro d
                rw [Standing.after_append, hfour, Standing.after_append]
                exact staysInside_unit hlow d
            · exact hsingle h
        next => exact hsingle h
      · exact hsingle h
  next => contradiction

/-- The rest of a string leads from inside of it to outside, behind what was already read. -/
theorem exists_of_stringRest {opened skip : Nat} {cs acc s rest : List Char}
    (h : stringRest opened skip cs acc = .ok (s, rest)) :
    ∃ passed used, cs = passed ++ (used ++ rest) ∧ passed.length = skip ∧
      ∀ d, Standing.after ⟨d, .inside⟩ used = ⟨d, .outside⟩ := by
  fun_induction stringRest opened skip cs acc with
  | case1 => contradiction
  | case2 skip c cs acc ih =>
    obtain ⟨passed, used, rfl, rfl, hused⟩ := ih h
    exact ⟨c :: passed, used, rfl, rfl, hused⟩
  | case3 cs acc =>
    cases h
    exact ⟨[], ['"'], rfl, rfl, fun _ => rfl⟩
  | case4 => contradiction
  | case5 acc cs c taken hunit ih =>
    obtain ⟨passed, used, hcs, hlength, hused⟩ := ih h
    obtain ⟨taken, tail, rfl, rfl, htaken⟩ := exists_of_unitEscape? hunit
    -- what was skipped is the letter and the digits of the escape
    rw [← List.cons_append] at hcs
    obtain ⟨rfl, rfl⟩ := List.append_inj hcs (by rw [List.length_cons, hlength])
    refine ⟨[], '\\' :: 'u' :: taken ++ used, by simp, rfl, ?_⟩
    intro d
    have hback : Standing.after ⟨d, .inside⟩ ('\\' :: 'u' :: taken) = ⟨d, .inside⟩ := htaken d
    rw [Standing.after_append, hback, hused]
  | case6 => contradiction
  | case7 acc c cs _ e he ih =>
    obtain ⟨passed, used, hcs, hlength, hused⟩ := ih h
    rw [← List.singleton_append] at hcs
    obtain ⟨rfl, rfl⟩ := List.append_inj hcs (by rw [List.length_singleton, hlength])
    exact ⟨[], '\\' :: c :: used, rfl, rfl, hused⟩
  | case8 => contradiction
  | case9 => contradiction
  | case10 c cs acc hquote hslash _ ih =>
    obtain ⟨passed, used, rfl, hlength, hused⟩ := ih h
    rw [List.length_eq_zero_iff] at hlength
    subst hlength
    refine ⟨[], c :: used, rfl, rfl, ?_⟩
    intro d
    rw [Standing.after_cons, Standing.step_inside hquote hslash, hused]

/-- What is wrong with a string is about no limit. -/
theorem problem_of_stringRest {opened skip : Nat} {cs acc : List Char} {f : Fault}
    (h : stringRest opened skip cs acc = .error f) :
    f.problem ≠ .deepNesting ∧ f.problem ≠ .longNumber := by
  fun_induction stringRest opened skip cs acc with
  | case1 | case4 | case6 | case8 | case9 =>
    cases h
    exact ⟨nofun, nofun⟩
  | case2 _ _ _ _ ih | case5 _ _ _ _ _ ih | case7 _ _ _ _ _ _ ih | case10 _ _ _ _ _ _ ih =>
    exact ih h
  | case3 => contradiction

theorem leads_string {opened : Nat} {cs s rest : List Char}
    (h : stringRest opened 0 cs [] = .ok (s, rest)) : Leads 0 0 ('"' :: cs) rest := by
  obtain ⟨passed, used, rfl, hlength, hused⟩ := exists_of_stringRest h
  rw [List.length_eq_zero_iff] at hlength
  subst hlength
  exact ⟨'"' :: used, rfl, hused⟩

theorem leads_plain {c : Char} (h : c ∉ marks) (cs : List Char) : Leads 0 0 (c :: cs) cs :=
  leads_cons (.plain (List.forall_mem_singleton.mpr h) 0) cs

theorem leads_fractionDigits (cs : List Char) : Leads 0 0 cs (fractionDigits cs).2 := by
  fun_cases fractionDigits cs with
  | case1 c cs hc => exact (leads_plain (by decide) _).trans (leads_digits _)
  | case2 => exact Leads.refl 0 _
  | case3 => exact Leads.refl 0 _

theorem fractionDigits_of_nil {cs rest : List Char} (h : fractionDigits cs = ([], rest)) :
    rest = cs := by
  revert h
  fun_cases fractionDigits cs with
  | case1 c cs hc => simp [hc]
  | case2 => exact fun h => (Prod.mk.inj h).2.symm
  | case3 => exact fun h => (Prod.mk.inj h).2.symm

theorem leads_exponent? {cs rest : List Char} {e : Int} (h : exponent? cs = some (e, rest)) :
    Leads 0 0 cs rest := by
  revert h
  fun_cases exponent? cs with
  | case1 | case3 | case4 => exact nofun
  | case2 letter cs hletter negative signed hsigned ds hds n =>
    intro h
    obtain ⟨-, rfl⟩ := Prod.mk.inj (Option.some.inj h)
    have hplain : letter ∉ marks := by rcases hletter with rfl | rfl <;> decide
    have hsign : Leads 0 0 cs signed := by
      split at hsigned
      all_goals
        obtain ⟨-, rfl⟩ := Prod.mk.inj hsigned
      · exact leads_plain (by decide) _
      · exact leads_plain (by decide) _
      · exact Leads.refl 0 _
    exact (leads_plain hplain cs).trans (hsign.trans (leads_digits signed))

/-- The digits a number begins with: a zero alone, or all of those that stand there. -/
structure IsWhole (cs ds rest : List Char) : Prop where
  eq : cs = ds ++ rest
  digits : ∀ c ∈ ds, isDigit c = true
  ends : ds = ['0'] ∨ ds.head? ≠ some '0' ∧ ∀ c ∈ rest.head?, isDigit c = false

theorem IsWhole.leads {cs ds rest : List Char} (h : IsWhole cs ds rest) : Leads 0 0 cs rest :=
  ⟨ds, h.eq, Passes.digits h.digits⟩

theorem isWhole_digits {c : Char} (hdigit : isDigit c = true) (hzero : c ≠ '0') (cs : List Char) :
    IsWhole (c :: cs) ((c :: cs).takeWhile isDigit) ((c :: cs).dropWhile isDigit) := by
  refine ⟨List.takeWhile_append_dropWhile.symm, fun _ => List.mem_takeWhile_imp, Or.inr ⟨?_, ?_⟩⟩
  · rw [List.takeWhile_cons_of_pos hdigit, List.head?_cons, Ne, Option.some.injEq]
    exact hzero
  · have hstop := List.head?_dropWhile_not isDigit (c :: cs)
    intro x hx
    rw [Option.mem_def] at hx
    rwa [hx] at hstop

/-- What the reader makes of a number behind its sign: no number begins there, or it takes one, or
the digits are too many. -/
theorem unsigned_cases {negative : Bool} {cs : List Char} {r : Except Problem (Value × List Char)}
    (h : unsigned negative cs = r) :
    r = .error .value ∨ ∃ ds rest, IsWhole cs ds rest ∧
      ((∃ v left, r = .ok (v, left) ∧ Leads 0 0 rest left) ∨
        r = .error .longNumber ∧ IsLongInteger ds rest) := by
  unfold unsigned at h
  extract_lets whole at h
  have hwhole : ∀ ds rest, whole = some (ds, rest) → IsWhole cs ds rest := by
    intro ds rest hds
    unfold whole at hds
    split at hds
    · cases hds
      exact ⟨rfl, List.forall_mem_singleton.mpr (by decide), Or.inl rfl⟩
    · next c cs hzero =>
      split at hds
      next hdigit =>
        cases hds
        exact isWhole_digits hdigit hzero cs
      next => contradiction
    · contradiction
  clear_value whole
  cases whole with
  | none => exact Or.inl h.symm
  | some pair =>
    obtain ⟨ds, rest⟩ := pair
    have hwhole := hwhole ds rest rfl
    refine Or.inr ⟨ds, rest, hwhole, ?_⟩
    have hfraction := leads_fractionDigits rest
    obtain ⟨fs, tail, hfs⟩ : ∃ fs tail, fractionDigits rest = (fs, tail) := ⟨_, _, rfl⟩
    simp only [hfs] at h hfraction
    split at h
    next e left hexp => exact Or.inl ⟨_, left, h.symm, hfraction.trans (leads_exponent? hexp)⟩
    next hexp =>
      split at h
      next => exact Or.inl ⟨_, tail, h.symm, hfraction⟩
      next hnil =>
        split at h
        next hlong =>
          obtain rfl : fs = [] := by simpa using hnil
          obtain rfl := fractionDigits_of_nil hfs
          obtain hds | ⟨hzero, hstop⟩ := hwhole.ends
          · -- a zero alone is not long
            rw [hds] at hlong
            contradiction
          · exact Or.inr ⟨h.symm, hwhole.digits, hzero, hlong, hstop, hfs, hexp⟩
        next => exact Or.inl ⟨_, tail, h.symm, hfraction⟩

theorem leads_name? {cs rest : List Char} {v : Value} (h : name? cs = some (v, rest)) :
    Leads 0 0 cs rest := by
  unfold name? at h
  split at h
  case h_7 => contradiction
  all_goals
    obtain ⟨-, rfl⟩ := Prod.mk.inj (Option.some.inj h)
    repeat refine (leads_plain (by decide) _).trans ?_
    exact Leads.refl 0 _

theorem signed_cases {negative : Bool} {sign cs : List Char} (hsign : sign = [] ∨ sign = ['-'])
    {r : Except Problem (Value × List Char)} (h : unsigned negative cs = r) :
    r = .error .value ∨ (∃ v rest, r = .ok (v, rest) ∧ Leads 0 0 (sign ++ cs) rest) ∨
      r = .error .longNumber ∧ HasLongInteger (sign ++ cs) := by
  have hplain : ∀ c ∈ sign, c ∉ marks := by rcases hsign with rfl | rfl <;> simp [marks]
  have hlead : Leads 0 0 (sign ++ cs) cs := ⟨sign, rfl, Passes.plain hplain 0⟩
  rcases unsigned_cases h with hvalue | ⟨ds, rest, hwhole, hok | hlong⟩
  · exact Or.inl hvalue
  · obtain ⟨v, left, hr, hleft⟩ := hok
    exact Or.inr (Or.inl ⟨v, left, hr, hlead.trans (hwhole.leads.trans hleft)⟩)
  · refine Or.inr (Or.inr ⟨hlong.1, [], sign, ds, rest, ?_, nofun, rfl, hsign, hlong.2⟩)
    rw [hwhole.eq, List.nil_append]

theorem number_cases {cs : List Char} {r : Except Problem (Value × List Char)}
    (h : number cs = r) :
    r = .error .value ∨ (∃ v rest, r = .ok (v, rest) ∧ Leads 0 0 cs rest) ∨
      r = .error .longNumber ∧ HasLongInteger cs := by
  unfold number at h
  split at h
  next cs => exact signed_cases (Or.inr rfl) h
  next => exact signed_cases (Or.inl rfl) h

/-- A result of the reader is accounted for: a value leads from `a` open brackets to where none is,
and a fault about a limit is justified. -/
structure Accounts (a levels : Nat) (cs : List Char) (r : Except Fault (Value × List Char)) :
    Prop where
  leads : ∀ v rest, r = .ok (v, rest) → Leads a 0 cs rest
  justified : ∀ f, r = .error f → Justified levels cs f

namespace Accounts

variable {a b levels : Nat} {cs rest : List Char}

theorem ok (h : Leads a 0 cs rest) (levels : Nat) (v : Value) :
    Accounts a levels cs (.ok (v, rest)) := by
  refine ⟨?_, nofun⟩
  intro w left hw
  cases hw
  exact h

theorem error {f : Fault} (h : Justified levels cs f) (a : Nat) :
    Accounts a levels cs (.error f) := by
  refine ⟨nofun, ?_⟩
  intro g hg
  cases hg
  exact h

theorem of_ne {p : Problem} (h : p ≠ .deepNesting ∧ p ≠ .longNumber) (left a levels : Nat)
    (cs : List Char) : Accounts a levels cs (.error ⟨p, left⟩) :=
  error (Justified.of_ne h left levels cs) a

/-- What opens brackets hands the account of the rest on. -/
theorem of_opens {r : Except Fault (Value × List Char)} (h : Accounts (b + a) levels rest r)
    (hopens : Opens b cs rest) : Accounts a (levels + b) cs r := by
  refine ⟨?_, fun f hf => (h.justified f hf).of_opens hopens⟩
  intro v left hv
  have hlead := hopens.leads.raise a
  rw [Nat.zero_add] at hlead
  exact hlead.trans (h.leads v left hv)

end Accounts

theorem accounts_scalar (levels : Nat) (cs : List Char) : Accounts 0 levels cs (scalar cs) := by
  unfold scalar
  split
  next r hname => exact Accounts.ok (leads_name? hname) levels r.1
  next =>
    split
    next r hnumber =>
      obtain hvalue | ⟨v, rest, hok, hlead⟩ | ⟨hlong, -⟩ := number_cases hnumber
      · contradiction
      · cases hok
        exact Accounts.ok hlead levels v
      · contradiction
    next p hnumber =>
      apply Accounts.error
      obtain hvalue | ⟨v, rest, hok, -⟩ | ⟨hlong, hover⟩ := number_cases hnumber
      · cases hvalue
        exact Justified.of_ne (by decide) cs.length levels cs
      · contradiction
      · cases hlong
        exact ⟨nofun, fun _ => hover⟩

theorem opens_bracket {c : Char} (h : c = '[' ∨ c = '\x7b') (cs : List Char) :
    Opens 1 (c :: cs) (skipBlanks cs) := by
  refine (Leads.refl 0 (c :: cs)).opens (Passes.opening h) ?_
  rcases h with rfl | rfl <;> decide

theorem justified_bracket {c : Char} (h : c = '[' ∨ c = '\x7b') (cs : List Char) (left : Nat) :
    Justified 0 (c :: cs) ⟨.deepNesting, left⟩ := by
  refine ⟨fun _ d => ⟨[c], List.prefix_append [c] cs, ?_⟩, nofun⟩
  have hstep : Standing.after ⟨d, .outside⟩ [c] = ⟨d + 1, .outside⟩ := Passes.opening h d
  rw [hstep]
  exact Nat.lt_succ_self d

/-- The three parts of the reader are accounted for with so much fuel. -/
structure ReadersAccount (fuel : Nat) : Prop where
  value : ∀ levels cs, Accounts 0 levels cs (value fuel levels cs)
  items : ∀ levels cs acc, Accounts 1 levels cs (items fuel levels cs acc)
  members : ∀ levels cs acc, Accounts 1 levels cs (members fuel levels cs acc)

theorem accounts_value_succ {fuel : Nat} (ih : ReadersAccount fuel) (levels : Nat)
    (cs : List Char) : Accounts 0 levels cs (value (fuel + 1) levels cs) := by
  rw [value.eq_def]
  dsimp only
  split
  next rest =>
    split
    next s rest' hstring => exact Accounts.ok (leads_string hstring) levels _
    next f hstring =>
      exact Accounts.of_ne (problem_of_stringRest hstring) f.left 0 levels _
  next rest =>
    have hopens := opens_bracket (Or.inl rfl) rest
    split
    next => exact Accounts.error (justified_bracket (Or.inl rfl) rest _) 0
    next rest' heq =>
      rw [heq] at hopens
      exact Accounts.ok (hopens.leads.trans (leads_cons (.closing (Or.inl rfl)) rest')) _ _
    next => exact (ih.items _ _ []).of_opens hopens
  next rest =>
    have hopens := opens_bracket (Or.inr rfl) rest
    split
    next => exact Accounts.error (justified_bracket (Or.inr rfl) rest _) 0
    next rest' heq =>
      rw [heq] at hopens
      exact Accounts.ok (hopens.leads.trans (leads_cons (.closing (Or.inr rfl)) rest')) _ _
    next => exact (ih.members _ _ []).of_opens hopens
  next => exact accounts_scalar levels _

theorem accounts_items_succ {fuel : Nat} (ih : ReadersAccount fuel) (levels : Nat)
    (cs : List Char) (acc : List Value) :
    Accounts 1 levels cs (items (fuel + 1) levels cs acc) := by
  rw [items.eq_def]
  dsimp only
  have hvalue := ih.value levels cs
  split
  next f hf => exact Accounts.error (hvalue.justified f hf) 1
  next v rest hv =>
    have hlead : Leads 0 0 cs (skipBlanks rest) :=
      (hvalue.leads v rest hv).trans (leads_skipBlanks rest)
    split
    next rest' heq =>
      rw [heq] at hlead
      exact Accounts.ok ((hlead.raise 1).trans (leads_cons (.closing (Or.inl rfl)) rest')) _ _
    next rest' heq =>
      rw [heq] at hlead
      have hopens := hlead.opens (.plain (by simp [marks]) 0) (by decide)
      exact (ih.items levels _ (v :: acc)).of_opens hopens
    next => exact Accounts.of_ne (by decide) _ 1 levels cs

theorem accounts_members_succ {fuel : Nat} (ih : ReadersAccount fuel) (levels : Nat)
    (cs : List Char) (acc : List (String × Value)) :
    Accounts 1 levels cs (members (fuel + 1) levels cs acc) := by
  rw [members.eq_def]
  dsimp only
  split
  next rest =>
    split
    next f hstring =>
      exact Accounts.of_ne (problem_of_stringRest hstring) f.left 1 levels _
    next key rest' hstring =>
      have hkey := (leads_string hstring).trans (leads_skipBlanks rest')
      split
      next rest'' hcolon =>
        rw [hcolon] at hkey
        have hopens := hkey.opens (.plain (by simp [marks]) 0) (by decide)
        have hvalue := ih.value levels (skipBlanks rest'')
        split
        next f hf => exact Accounts.error ((hvalue.justified f hf).of_opens hopens) 1
        next v left hv =>
          have hlead := (hopens.leads.trans (hvalue.leads v left hv)).trans (leads_skipBlanks left)
          split
          next rest3 heq =>
            rw [heq] at hlead
            exact Accounts.ok ((hlead.raise 1).trans (leads_cons (.closing (Or.inr rfl)) rest3)) _ _
          next rest3 heq =>
            rw [heq] at hlead
            have hopens := hlead.opens (.plain (by simp [marks]) 0) (by decide)
            exact (ih.members levels _ _).of_opens hopens
          next => exact Accounts.of_ne (by decide) _ 1 levels _
      next => exact Accounts.of_ne (by decide) _ 1 levels _
  next => exact Accounts.of_ne (by decide) _ 1 levels _

theorem readersAccount (fuel : Nat) : ReadersAccount fuel := by
  -- every call of a part from another one takes fuel, so all three go through together
  induction fuel with
  | zero =>
    have hfault : ∀ a levels cs, Accounts a levels cs (.error ⟨.value, cs.length⟩) :=
      fun a levels cs => Accounts.of_ne (by decide) cs.length a levels cs
    refine ⟨?_, ?_, ?_⟩
    · intro levels cs
      rw [value]
      exact hfault 0 levels cs
    · intro levels cs acc
      rw [items]
      exact hfault 1 levels cs
    · intro levels cs acc
      rw [members]
      exact hfault 1 levels cs
  | succ fuel ih =>
    exact ⟨accounts_value_succ ih, accounts_items_succ ih, accounts_members_succ ih⟩

/-- The reader complains about a limit only where the text goes beyond it. -/
theorem justified_of_parseWithin {levels : Nat} {text : List Char} {f : Fault}
    (h : parseWithin levels text = .error f) : Justified levels text f := by
  have hvalue := (readersAccount (2 * text.length + 2)).value levels (skipBlanks text)
  have hwhole : parseWithin.whole levels text = .error f → Justified levels text f := by
    intro hf
    unfold parseWithin.whole at hf
    split at hf
    next g hg =>
      cases hf
      exact (hvalue.justified f hg).of_opens (opens_skipBlanks text)
    next =>
      split at hf
      · contradiction
      · cases hf
        exact Justified.of_ne (by decide) _ levels text
  unfold parseWithin at h
  split at h
  · split at h
    · cases h
      exact Justified.of_ne (by decide) _ levels _
    · exact hwhole h
  · exact hwhole h

theorem nestsBeyond_of_parseWithin {levels : Nat} {text : List Char} {f : Fault}
    (h : parseWithin levels text = .error f) (hf : f.problem = .deepNesting) :
    NestsBeyond levels text := by
  obtain ⟨front, hfront, hdepth⟩ := (justified_of_parseWithin h).climbs hf 0
  rw [Nat.zero_add] at hdepth
  exact ⟨front, hfront, hdepth⟩

theorem hasLongInteger_of_parseWithin {levels : Nat} {text : List Char} {f : Fault}
    (h : parseWithin levels text = .error f) (hf : f.problem = .longNumber) :
    HasLongInteger text := (justified_of_parseWithin h).longInteger hf

end CodeAtlas.Value.Json
