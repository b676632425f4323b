import CodeAtlas.Proofs.Calls.Edges

/-!
# The order of callees

The index holds the call sites of a file by the first use of what they name, and
the call graph sorts them by line without disturbing this order. So the callees of
a caller stand by the line of their first call, and on one line by the first use of
their names anywhere in the file. This is the order in which they appear, unless on
some line a call site that has something new for the caller comes behind another
one and yet names what was used before in the file.
-/

namespace CodeAtlas.Index

def lineLe (a b : Reference) : Bool := decide (a.line ≤ b.line)

/-- Where a call site's callee is first named among all call sites. -/
def firstUse (refs : List Reference) (r : Reference) : Nat := (refs.map Reference.key).idxOf r.key

/-- Order by line, and on one line by the first use of the callee. -/
def useLe (refs : List Reference) (a b : Reference) : Bool :=
  if a.line = b.line then firstUse refs a ≤ firstUse refs b else a.line ≤ b.line

theorem sorts_lineLe : Order.Sorts lineLe where
  trans a b c hab hbc := by
    simp only [lineLe, decide_eq_true_eq] at *
    omega
  total a b := by
    simp only [lineLe, Bool.or_eq_true, decide_eq_true_eq]
    omega

theorem useLe_eq_lex (refs : List Reference) :
    useLe refs = Order.lex lineLe (Table.firstLe Reference.key refs) := by
  funext a b
  have hfirst : Table.firstLe Reference.key refs a b =
      decide (firstUse refs a ≤ firstUse refs b) := rfl
  rw [useLe, Order.lex, hfirst]
  simp only [lineLe]
  by_cases hline : a.line = b.line
  · simp [hline]
  · by_cases hle : a.line ≤ b.line
    · have hnot : ¬b.line ≤ a.line := by omega
      simp [hline, hle, hnot]
    · simp [hline, hle]

theorem pairwise_mergeSort_useLe (refs : List Reference) :
    (refs.mergeSort (useLe refs)).Pairwise fun a b => lineLe a b = true := by
  have hlex := sorts_lineLe.lex (Table.sorts_firstLe Reference.key refs)
  rw [useLe_eq_lex]
  refine (List.pairwise_mergeSort hlex.trans hlex.total refs).imp ?_
  intro a b hab
  simp only [Order.lex, Bool.and_eq_true] at hab
  exact hab.1

theorem alike_lineLe {a b : Reference} (h : Order.alike lineLe a b = true) : a.line = b.line := by
  simp only [Order.alike, lineLe, Bool.and_eq_true, decide_eq_true_eq] at h
  omega

/-- In one file, call sites are sorted by their lines. -/
theorem mergeSort_siteLe {refs : List Reference} {file : String}
    (h : ∀ r ∈ refs, r.file = file) : refs.mergeSort siteLe = refs.mergeSort lineLe := by
  apply Order.mergeSort_congr
  intro a ha b hb
  simp [siteLe, lineLe, h a ha, h b hb]

/-- What a caller calls at some call sites, in the order of first appearance. -/
def calleesAt (x : Index) (sites : List Reference) (c : String) : List String :=
  Table.listed (sites.flatMap (x.callsOf (.ofIndex x))) c

/-- Whether a caller of this name calls something at a call site that it calls on no earlier
line. -/
def callsNew (x : Index) (refs : List Reference) (c : String) (r : Reference) : Bool :=
  (x.callsOf (.ofIndex x) r).any fun call => call.1 = c &&
    !refs.any fun q => q.line < r.line && (x.callsOf (.ofIndex x) q).contains call

/-- Each call at a call site that calls nothing new is one of an earlier line. -/
theorem exists_earlier_of_not_callsNew {x : Index} {refs : List Reference} {c d : String}
    {r : Reference} (hnew : x.callsNew refs c r = false)
    (hcall : (c, d) ∈ x.callsOf (.ofIndex x) r) :
    ∃ q ∈ refs, q.line < r.line ∧ (c, d) ∈ x.callsOf (.ofIndex x) q := by
  have hnot := List.any_eq_false.mp hnew (c, d) hcall
  simpa using hnot

/-- Call sites that call nothing new do not matter, as long as all earlier ones come first. -/
theorem calleesAt_filter_of_closed (x : Index) {refs sites : List Reference} (c : String)
    (hsorted : sites.Pairwise fun a b => lineLe a b = true)
    (hclosed : ∀ r ∈ sites, ∀ q ∈ refs, q.line < r.line → q ∈ sites) :
    x.calleesAt (sites.filter (x.callsNew refs c)) c = x.calleesAt sites c := by
  induction sites using List.reverseRecOn with
  | nil => rfl
  | append_singleton sites r ih =>
    obtain ⟨hsites, -, hlast⟩ := List.pairwise_append.mp hsorted
    -- what is earlier than a call site in front is in front as well
    have hfront : ∀ s ∈ sites, ∀ q ∈ refs, q.line < s.line → q ∈ sites := by
      intro s hs q hq hlt
      rcases List.mem_append.mp (hclosed s (List.mem_append_left _ hs) q hq hlt) with hmem | hmem
      · exact hmem
      · have hle := hlast s hs r (List.mem_singleton_self r)
        rw [lineLe, decide_eq_true_eq] at hle
        rw [List.mem_singleton.mp hmem] at hlt
        omega
    rw [calleesAt, calleesAt, List.filter_append, List.flatMap_append, List.flatMap_append,
      Table.listed_append_congr (ih hsites hfront)]
    cases hnew : x.callsNew refs c r with
    | true => rw [List.filter_cons_of_pos hnew, List.filter_nil]
    | false =>
      rw [List.filter_cons_of_neg (by simp [hnew]), List.filter_nil, List.flatMap_nil,
        List.append_nil]
      symm
      apply Table.listed_append_of_mem
      intro d hd
      rw [List.flatMap_singleton] at hd
      obtain ⟨q, hq, hlt, hcall⟩ := exists_earlier_of_not_callsNew hnew hd
      rcases List.mem_append.mp (hclosed r (by simp) q hq hlt) with hmem | hmem
      · exact List.mem_flatMap.mpr ⟨q, hmem, hcall⟩
      · rw [List.mem_singleton.mp hmem] at hlt
        omega

theorem calleesAt_filter_callsNew (x : Index) {refs sites : List Reference} (c : String)
    (hperm : sites.Perm refs) (hsorted : sites.Pairwise fun a b => lineLe a b = true) :
    x.calleesAt (sites.filter (x.callsNew refs c)) c = x.calleesAt sites c :=
  x.calleesAt_filter_of_closed c hsorted fun _ _ _ hq _ => hperm.mem_iff.mpr hq

/-- On each line, the call sites at which a caller calls something new stand in the order in which
their callees are first named in the file. -/
def InStep (x : Index) (refs : List Reference) (c : String) : Prop :=
  (refs.filter (x.callsNew refs c)).Pairwise fun a b =>
    a.line = b.line → firstUse refs a ≤ firstUse refs b

/-- Where call sites are in step, those with something new are sorted by their lines alone. -/
theorem InStep.filter_mergeSort {x : Index} {refs : List Reference} {c : String}
    (h : x.InStep refs c) :
    (refs.mergeSort (useLe refs)).filter (x.callsNew refs c) =
      (refs.mergeSort lineLe).filter (x.callsNew refs c) := by
  have hfirst := Table.sorts_firstLe Reference.key refs
  rw [useLe_eq_lex, (sorts_lineLe.lex hfirst).filter_mergeSort, sorts_lineLe.filter_mergeSort]
  apply sorts_lineLe.mergeSort_lex_of_pairwise hfirst
  refine List.Pairwise.imp ?_ h
  intro a b hab halike
  simpa [Table.firstLe, firstUse] using hab (alike_lineLe halike)

/-- The graph of one file takes its call sites by line, and on one line by the first use of the
callee. -/
theorem neighbours_callGraph_single (base : String) {f : Findings}
    (hfile : ∀ r ∈ f.references, r.file = f.file) (c : String) :
    (merge base [f]).callGraph.neighbours c =
      (merge base [f]).calleesAt (f.references.mergeSort (useLe f.references)) c := by
  have hall : (merge base [f]).allReferences =
      f.references.mergeSort (Table.firstLe Reference.key f.references) := by
    simpa using allReferences_merge base [f]
  have hsites : (merge base [f]).sites = f.references.mergeSort (useLe f.references) := by
    rw [sites, hall, mergeSort_siteLe fun r hr => hfile r (List.mem_mergeSort.mp hr), useLe_eq_lex]
    exact sorts_lineLe.mergeSort_mergeSort (Table.sorts_firstLe _ _) _
  rw [neighbours_callGraph, calls, hsites, calleesAt]

/-- In the index of one file, the callees of each caller stand in the order of first appearance if
its call sites are taken by line, and on one line by the first use of what they name. If they are in
step, this is the order in which they appear line by line. -/
theorem callees_by_line_then_first_use (base : String) {f : Findings}
    (hfile : ∀ r ∈ f.references, r.file = f.file) (c : String) :
    (merge base [f]).callGraph.neighbours c =
      (merge base [f]).calleesAt (f.references.mergeSort (useLe f.references)) c ∧
    ((merge base [f]).InStep f.references c →
      (merge base [f]).callGraph.neighbours c =
        (merge base [f]).calleesAt (f.references.mergeSort lineLe) c) := by
  have hexact := neighbours_callGraph_single base hfile c
  refine ⟨hexact, ?_⟩
  intro hstep
  have hlines := List.pairwise_mergeSort sorts_lineLe.trans sorts_lineLe.total f.references
  rw [hexact, ← calleesAt_filter_callsNew _ c (List.mergeSort_perm _ _)
    (pairwise_mergeSort_useLe f.references), hstep.filter_mergeSort,
    calleesAt_filter_callsNew _ c (List.mergeSort_perm _ _) hlines]

def plainFunction (name : String) (line endLine : Int) : Symbol :=
  ⟨symbolId "t.js" name line, name, .function, "t.js", line, endLine, false, "", none⟩

/-- A call site in the third of three functions. -/
def siteInThird (key : String) (line : Int) (kind : ReferenceKind) : Reference :=
  { key, file := "t.js", line, kind, caller := some "t.js:c:3" }

def threeFunctions (references : List Reference) : Findings where
  file := "t.js"
  language := "javascript"
  symbols := [plainFunction "a" 1 1, plainFunction "b" 2 2, plainFunction "c" 3 6]
  references := references

theorem ofIndex_threeFunctions (refs : List Reference) :
    Resolver.ofIndex (merge "" [threeFunctions refs]) =
      [plainFunction "a" 1 1, plainFunction "b" 2 2, plainFunction "c" 3 6].foldl
        Resolver.enter {} := by
  have hvalues : (merge "" [threeFunctions refs]).symbols.values =
      [plainFunction "a" 1 1, plainFunction "b" 2 2, plainFunction "c" 3 6] := rfl
  rw [Resolver.ofIndex, Resolver.ordered, hvalues, List.mergeSort_of_pairwise (by decide)]

/-- Two functions are called on one line and, the other way around, on the next. -/
def thereAndBack : Findings :=
  threeFunctions [siteInThird "a" 4 .call, siteInThird "b" 4 .call, siteInThird "b" 5 .call,
    siteInThird "a" 5 .call]

theorem callees_thereAndBack_in_step :
    (∀ r ∈ thereAndBack.references, r.file = thereAndBack.file) ∧
    (merge "" [thereAndBack]).InStep thereAndBack.references "c" ∧
    (merge "" [thereAndBack]).callGraph.neighbours "c" =
      (merge "" [thereAndBack]).calleesAt (thereAndBack.references.mergeSort lineLe) "c" := by
  have hfile : ∀ r ∈ thereAndBack.references, r.file = thereAndBack.file := by decide
  have hnew : thereAndBack.references.filter
      ((merge "" [thereAndBack]).callsNew thereAndBack.references "c") =
      [siteInThird "a" 4 .call, siteInThird "b" 4 .call] := by
    unfold callsNew thereAndBack
    rw [ofIndex_threeFunctions]
    decide +kernel
  have hstep : (merge "" [thereAndBack]).InStep thereAndBack.references "c" := by
    rw [InStep, hnew]
    decide
  exact ⟨hfile, hstep, (callees_by_line_then_first_use "" hfile "c").2 hstep⟩

/-- The second function is handed over on the line after the one on which both are called, but it is
met there first. -/
def handedOver : Findings :=
  threeFunctions [siteInThird "x" 4 .call, siteInThird "b" 5 .callback, siteInThird "a" 4 .call,
    siteInThird "b" 4 .call]

/-- Line by line the first function appears before the second, and yet it is listed behind it. -/
theorem callees_handedOver_out_of_order :
    (∀ r ∈ handedOver.references, r.file = handedOver.file) ∧
    (merge "" [handedOver]).calleesAt (handedOver.references.mergeSort lineLe) "c" = ["a", "b"] ∧
    (merge "" [handedOver]).callGraph.neighbours "c" = ["b", "a"] := by
  have hfile : ∀ r ∈ handedOver.references, r.file = handedOver.file := by decide
  have hlines : handedOver.references.mergeSort lineLe =
      [siteInThird "x" 4 .call, siteInThird "a" 4 .call, siteInThird "b" 4 .call,
        siteInThird "b" 5 .callback] := by
    simp [handedOver, threeFunctions, siteInThird, List.mergeSort,
      List.MergeSort.Internal.splitInTwo, lineLe]
  have huses : handedOver.references.mergeSort (useLe handedOver.references) =
      [siteInThird "x" 4 .call, siteInThird "b" 4 .call, siteInThird "a" 4 .call,
        siteInThird "b" 5 .callback] := by
    simp [handedOver, threeFunctions, siteInThird, List.mergeSort,
      List.MergeSort.Internal.splitInTwo, useLe, firstUse]
  refine ⟨hfile, ?_, ?_⟩
  · rw [hlines, calleesAt, handedOver, ofIndex_threeFunctions]
    decide +kernel
  · rw [neighbours_callGraph_single "" hfile, huses, calleesAt, handedOver, ofIndex_threeFunctions]
    decide +kernel

end CodeAtlas.Index
