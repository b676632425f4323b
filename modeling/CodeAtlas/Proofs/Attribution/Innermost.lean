import CodeAtlas.Attribution
import Mathlib.Data.Int.ConditionallyCompleteOrder
import Mathlib.Data.List.Forall2
import Mathlib.Order.CompletePartialOrder
import Mathlib.Order.ConditionallyCompleteLattice.Basic

/-!
# The innermost function around a call site

A call site is attributed to the function or method with the shortest range around
its line, and of several such ranges to the one that is listed first. The ranges are
a server's, so they may overlap, be equal or end before they start. If any two of
them are nested or disjoint, then the shortest one around a line lies within every
other one around it.
-/

namespace CodeAtlas.Attribution

/-- The lines of a symbol: none if it ends before it starts. -/
def extent (s : Symbol) : Set Int := Set.Icc s.line s.endLine

/-- How far the last line is behind the first. -/
def span (s : Symbol) : Int := s.endLine - s.line

/-- A function or method has a line among its lines. -/
def Surrounds (s : Symbol) (line : Int) : Prop := s.kind.isCallable = true ∧ line ∈ extent s

/-- Of all functions and methods around a line, the first in the list with the least span. -/
def FirstShortest (symbols : List Symbol) (line : Int) (s : Symbol) : Prop :=
  ∃ before after, symbols = before ++ s :: after ∧ Surrounds s line ∧
    (∀ t ∈ before, Surrounds t line → span s < span t) ∧
    ∀ t ∈ after, Surrounds t line → span s ≤ span t

/-- Any two functions or methods are nested or disjoint. -/
def Laminar (symbols : List Symbol) : Prop :=
  ∀ s ∈ symbols, ∀ t ∈ symbols, s.kind.isCallable = true → t.kind.isCallable = true →
    extent s ⊆ extent t ∨ extent t ⊆ extent s ∨ Disjoint (extent s) (extent t)

theorem surrounds_iff (s : Symbol) (line : Int) :
    (s.kind.isCallable && s.line ≤ line && line ≤ s.endLine) = true ↔ Surrounds s line := by
  simp [Surrounds, extent, and_assoc]

theorem shortest?_eq_none_iff (symbols : List Symbol) :
    shortest? symbols = none ↔ symbols = [] := by
  cases symbols with
  | nil => simp [shortest?]
  | cons s rest =>
    cases hrest : shortest? rest with
    | none => simp [shortest?, hrest]
    | some t =>
      simp only [shortest?, hrest]
      split <;> simp

theorem shortest?_cons {rest : List Symbol} {t : Symbol} (s : Symbol)
    (h : shortest? rest = some t) :
    shortest? (s :: rest) = if span s ≤ span t then some s else some t := by
  simp only [shortest?, h]
  rfl

/-- Ranges in front of the chosen one are longer, and those behind it are no shorter. -/
theorem exists_split_of_shortest? {symbols : List Symbol} {s : Symbol}
    (h : shortest? symbols = some s) :
    ∃ before after, symbols = before ++ s :: after ∧
      (∀ t ∈ before, span s < span t) ∧ ∀ t ∈ after, span s ≤ span t := by
  induction symbols generalizing s with
  | nil => simp [shortest?] at h
  | cons t rest ih =>
    cases hrest : shortest? rest with
    | none =>
      have hnil : rest = [] := (shortest?_eq_none_iff rest).mp hrest
      simp only [shortest?, hrest, Option.some.injEq] at h
      subst h
      exact ⟨[], rest, rfl, by simp, by simp [hnil]⟩
    | some u =>
      obtain ⟨before, after, rfl, hbefore, hafter⟩ := ih hrest
      by_cases hle : span t ≤ span u
      · rw [shortest?_cons t hrest, if_pos hle, Option.some.injEq] at h
        subst h
        refine ⟨[], before ++ u :: after, rfl, by simp, ?_⟩
        intro v hv
        rcases List.mem_append.mp hv with hv | hv
        · have hlt := hbefore v hv
          omega
        · rcases List.mem_cons.mp hv with rfl | hv
          · exact hle
          · have hge := hafter v hv
            omega
      · rw [shortest?_cons t hrest, if_neg hle, Option.some.injEq] at h
        subst h
        refine ⟨t :: before, after, rfl, ?_, hafter⟩
        intro v hv
        rcases List.mem_cons.mp hv with rfl | hv
        · omega
        · exact hbefore v hv

theorem enclosing?_eq_none_iff (symbols : List Symbol) (line : Int) :
    enclosing? symbols line = none ↔ ∀ s ∈ symbols, ¬Surrounds s line := by
  simp only [enclosing?, shortest?_eq_none_iff, List.filter_eq_nil_iff, surrounds_iff]

theorem firstShortest_of_enclosing? {symbols : List Symbol} {line : Int} {s : Symbol}
    (h : enclosing? symbols line = some s) : FirstShortest symbols line s := by
  obtain ⟨longer, others, hsplit, hlonger, hothers⟩ := exists_split_of_shortest? h
  -- the list is cut where its filtered form is, and what the filter drops is not around the line
  obtain ⟨front, back, rfl, rfl, hback⟩ := List.filter_eq_append_iff.mp hsplit
  obtain ⟨dropped, after, rfl, hdropped, hs, rfl⟩ := List.filter_eq_cons_iff.mp hback
  refine ⟨front ++ dropped, after, by simp, (surrounds_iff s line).mp hs, ?_, ?_⟩
  · intro t ht hsurrounds
    have hkept := (surrounds_iff t line).mpr hsurrounds
    rcases List.mem_append.mp ht with ht | ht
    · exact hlonger t (List.mem_filter.mpr ⟨ht, hkept⟩)
    · exact absurd hkept (hdropped t ht)
  · intro t ht hsurrounds
    exact hothers t (List.mem_filter.mpr ⟨ht, (surrounds_iff t line).mpr hsurrounds⟩)

theorem FirstShortest.span_le {symbols : List Symbol} {line : Int} {s t : Symbol}
    (h : FirstShortest symbols line s) (ht : t ∈ symbols) (hsurrounds : Surrounds t line) :
    span s ≤ span t := by
  obtain ⟨before, after, rfl, -, hbefore, hafter⟩ := h
  rcases List.mem_append.mp ht with ht | ht
  · exact (hbefore t ht hsurrounds).le
  · rcases List.mem_cons.mp ht with rfl | ht
    · exact le_rfl
    · exact hafter t ht hsurrounds

/-- A range that holds another one and is no longer is the same range. -/
theorem extent_subset_of_span_le {s t : Symbol} {line : Int} (hline : line ∈ extent t)
    (hsubset : extent t ⊆ extent s) (hspan : span s ≤ span t) : extent s ⊆ extent t := by
  have hle : t.line ≤ t.endLine := hline.1.trans hline.2
  obtain ⟨hfirst, hlast⟩ := (Set.Icc_subset_Icc_iff hle).mp hsubset
  simp only [span] at hspan
  apply Set.Icc_subset_Icc <;> omega

theorem FirstShortest.extent_subset {symbols : List Symbol} {line : Int} {s t : Symbol}
    (h : FirstShortest symbols line s) (hlaminar : Laminar symbols) (ht : t ∈ symbols)
    (hsurrounds : Surrounds t line) : extent s ⊆ extent t := by
  have hspan := h.span_le ht hsurrounds
  obtain ⟨before, after, rfl, hs, -⟩ := h
  rcases hlaminar s (by simp) t ht hs.1 hsurrounds.1 with hsubset | hsubset | hdisjoint
  · exact hsubset
  · exact extent_subset_of_span_le hsurrounds.2 hsubset hspan
  · exact absurd hsurrounds.2 (Set.disjoint_left.mp hdisjoint hs.2)

theorem laminar_of_bounds {symbols : List Symbol}
    (h : ∀ s ∈ symbols, ∀ t ∈ symbols, t.line ≤ s.line ∧ s.endLine ≤ t.endLine ∨
      s.line ≤ t.line ∧ t.endLine ≤ s.endLine ∨ s.endLine < t.line ∨ t.endLine < s.line) :
    Laminar symbols := by
  intro s hs t ht _ _
  rcases h s hs t ht with hst | hts | hlt | hlt
  · exact .inl (Set.Icc_subset_Icc hst.1 hst.2)
  · exact .inr (.inl (Set.Icc_subset_Icc hts.1 hts.2))
  · refine .inr (.inr (Set.disjoint_left.mpr fun line hs ht => ?_))
    exact absurd (ht.1.trans hs.2) (not_le.mpr hlt)
  · refine .inr (.inr (Set.disjoint_left.mpr fun line hs ht => ?_))
    exact absurd (hs.1.trans ht.2) (not_le.mpr hlt)

/-- A call site after attribution: only its caller is new. -/
structure Reattributed (symbols : List Symbol) (r r' : Reference) : Prop where
  same : r' = { r with caller := r'.caller }
  outside : r'.caller = none ↔ ∀ s ∈ symbols, ¬Surrounds s r.line
  inside : (∃ s ∈ symbols, Surrounds s r.line) →
    ∃ s, FirstShortest symbols r.line s ∧ r'.caller = some s.id ∧
      (Laminar symbols → ∀ t ∈ symbols, Surrounds t r.line → extent s ⊆ extent t)

theorem reattributed_enclosing? (symbols : List Symbol) (r : Reference) :
    Reattributed symbols r { r with caller := (enclosing? symbols r.line).map Symbol.id } where
  same := rfl
  outside := by simp [← enclosing?_eq_none_iff]
  inside := by
    rintro ⟨t, ht, hsurrounds⟩
    cases hs : enclosing? symbols r.line with
    | none => exact absurd hsurrounds ((enclosing?_eq_none_iff symbols r.line).mp hs t ht)
    | some s =>
      have hfirst := firstShortest_of_enclosing? hs
      exact ⟨s, hfirst, rfl, fun hlaminar u hu => hfirst.extent_subset hlaminar hu⟩

/-- Attribution keeps the call sites in their order and changes nothing but their callers. A call
site has no caller exactly if no function or method is around it. Otherwise the caller is the first
with the shortest range around it, which lies within every other one if ranges are nested or
disjoint. A second attribution changes nothing. -/
theorem reattribute_to_innermost (references : List Reference) (symbols : List Symbol) :
    List.Forall₂ (Reattributed symbols) references (reattribute references symbols) ∧
    reattribute (reattribute references symbols) symbols = reattribute references symbols := by
  constructor
  · rw [reattribute, List.forall₂_map_right_iff, List.forall₂_same]
    intro r _
    exact reattributed_enclosing? symbols r
  · simp [reattribute]

/-- A function in another one, beside a twin with the same lines, one that ends before it starts,
and a class around them. -/
def nestedFunctions : List Symbol :=
  [{ id := "f:K:1", name := "K", kind := .classDecl, file := "f", line := 1, endLine := 20 },
    { id := "f:outer:1", name := "outer", kind := .function, file := "f", line := 1,
      endLine := 10 },
    { id := "f:inner:3", name := "inner", kind := .function, file := "f", line := 3, endLine := 5 },
    { id := "f:twin:3", name := "twin", kind := .method, file := "f", line := 3, endLine := 5 },
    { id := "f:back:4", name := "back", kind := .function, file := "f", line := 4, endLine := 2 }]

/-- The innermost function is the first of the twins, and lies within every other one around. -/
theorem reattribute_to_innermost_nestedFunctions :
    Laminar nestedFunctions ∧
    ∃ s, FirstShortest nestedFunctions 4 s ∧ s.id = "f:inner:3" ∧
      ∀ t ∈ nestedFunctions, Surrounds t 4 → extent s ⊆ extent t := by
  have hlaminar : Laminar nestedFunctions := laminar_of_bounds (by decide)
  obtain ⟨hsites, -⟩ :=
    reattribute_to_innermost [{ key := "x", file := "f", line := 4 }] nestedFunctions
  obtain ⟨hsite, -⟩ := List.forall₂_cons.mp hsites
  obtain ⟨s, hfirst, hid, hwithin⟩ := hsite.inside
    ⟨nestedFunctions.get ⟨1, by decide⟩, List.get_mem _ _, rfl, by decide, by decide⟩
  refine ⟨hlaminar, s, hfirst, ?_, hwithin hlaminar⟩
  exact (Option.some.inj hid).symm

end CodeAtlas.Attribution
