import CodeAtlas.Proofs.Calls.Edges

/-!
# Resolution by a plain scan

A resolver looks a name up in tables that it makes in one pass over the declarations
by ascending id. What it finds is what a scan of all declarations finds that knows
nothing of tables or of that pass: every method of a name, or the one declaration of a
name that has the least id, in the file of the call site if there is one. So only the
declarations matter and not the order in which they were merged.
-/

namespace CodeAtlas.Resolver

theorem byName_foldl_enter (ds : List Symbol) (r : Resolver) :
    (ds.foldl enter r).byName = ds.foldl (fun t s => t.push s.name s) r.byName := by
  induction ds generalizing r with
  | nil => rfl
  | cons s ds ih =>
    rw [List.foldl_cons, ih]
    rfl

/-- A written name is looked for in the file of the call site first, then everywhere. -/
theorem resolve_written (x : Index) {ref : Reference} (h : ref.isWildcard = false) :
    (ofIndex x).resolve ref =
      (((ordered x).find? fun s => s.name = ref.key ∧ s.file = ref.file).or
        ((ordered x).find? fun s => s.name = ref.key)).toList := by
  have hcandidates : ((ofIndex x).byName.get? ref.key).getD [] =
      (ordered x).filter fun s => s.name = ref.key := by
    rw [ofIndex, byName_foldl_enter, Table.getD_foldl_push]
    simp
  have hfind : ((ordered x).find? fun s => s.name = ref.key ∧ s.file = ref.file) =
      (((ordered x).filter fun s => s.name = ref.key).filter fun s => s.file = ref.file).head? := by
    rw [List.filter_filter, List.head?_filter]
    simp [Bool.and_comm]
  rw [resolve, if_neg (by simp [h]), hcandidates, hfind, ← List.head?_filter]
  dsimp only
  split
  next s rest hhere => rw [hhere, List.head?_cons, Option.some_or, Option.toList_some]
  next hnone => rw [hnone, List.head?_nil, Option.none_or, List.take_one]

/-- A declaration has the least id of all that meet a condition. -/
structure Least (x : Index) (p : Symbol → Prop) (s : Symbol) : Prop where
  mem : s ∈ x.symbols.values
  holds : p s
  le : ∀ t ∈ x.symbols.values, p t → s.id ≤ t.id

theorem mem_ordered {x : Index} {s : Symbol} : s ∈ ordered x ↔ s ∈ x.symbols.values :=
  List.mem_mergeSort

/-- The first one by ascending id is the one with the least id. -/
theorem find?_ordered_eq_some_iff {x : Index} (hx : x.KeyedById) {p : Symbol → Prop}
    [DecidablePred p] {s : Symbol} :
    ((ordered x).find? fun t => p t) = some s ↔ Least x p s := by
  have hsorted := pairwise_ordered hx
  constructor
  · intro h
    obtain ⟨hp, before, after, hsplit, hbefore⟩ := List.find?_eq_some_iff_append.mp h
    have hmem : s ∈ ordered x := by simp [hsplit]
    refine ⟨mem_ordered.mp hmem, of_decide_eq_true hp, ?_⟩
    intro t ht hpt
    rw [← mem_ordered, hsplit, List.mem_append, List.mem_cons] at ht
    rw [hsplit, List.pairwise_append] at hsorted
    rcases ht with ht | rfl | ht
    · have hnot := hbefore t ht
      simp [hpt] at hnot
    · exact String.le_refl _
    · exact String.not_lt.mp (String.lt_asymm ((List.pairwise_cons.mp hsorted.2.1).1 t ht))
  · intro h
    obtain ⟨before, after, hsplit⟩ := List.append_of_mem (mem_ordered.mpr h.mem)
    rw [hsplit, List.pairwise_append] at hsorted
    refine List.find?_eq_some_iff_append.mpr ⟨decide_eq_true h.holds, before, after, hsplit, ?_⟩
    intro t ht
    -- one that stands before has a lower id, so the condition fails for it
    have hlt : t.id < s.id := hsorted.2.2 t ht s List.mem_cons_self
    have hpt : ¬p t := fun hpt =>
      String.not_lt.mpr (h.le t (mem_ordered.mp (by simp [hsplit, ht])) hpt) hlt
    simp [hpt]

theorem find?_ordered_eq_none_iff {x : Index} {p : Symbol → Prop} [DecidablePred p] :
    ((ordered x).find? fun t => p t) = none ↔ ∀ t ∈ x.symbols.values, ¬p t := by
  simp [mem_ordered]

/-- What a scan of the declarations finds for a call site. -/
inductive Scan (x : Index) (ref : Reference) : List Symbol → Prop
  /-- All methods of a name, by ascending id. -/
  | methods {name : String} {found : List Symbol} (hkey : ref.key = wildcardMark ++ name)
    (hascending : found.Pairwise fun a b => a.id < b.id)
    (hmem : ∀ s, s ∈ found ↔ s ∈ x.symbols.values ∧ s.kind = .method ∧ s.shortName = name) :
    Scan x ref found
  | sameFile {s : Symbol} (hkey : ∀ name, ref.key ≠ wildcardMark ++ name)
    (h : Least x (fun t => t.name = ref.key ∧ t.file = ref.file) s) : Scan x ref [s]
  | elsewhere {s : Symbol} (hkey : ∀ name, ref.key ≠ wildcardMark ++ name)
    (hfile : ∀ t ∈ x.symbols.values, ¬(t.name = ref.key ∧ t.file = ref.file))
    (h : Least x (fun t => t.name = ref.key) s) : Scan x ref [s]
  | nowhere (hkey : ∀ name, ref.key ≠ wildcardMark ++ name)
    (h : ∀ t ∈ x.symbols.values, t.name ≠ ref.key) : Scan x ref []

theorem not_isWildcard {ref : Reference} (h : ∀ name, ref.key ≠ wildcardMark ++ name) :
    ref.isWildcard = false := by
  rw [Bool.eq_false_iff, ne_eq, isWildcard_iff]
  rintro ⟨name, hname⟩
  exact h name hname

theorem scan_resolve {x : Index} (hx : x.KeyedById) (ref : Reference) :
    Scan x ref ((ofIndex x).resolve ref) := by
  by_cases hkey : ∃ name, ref.key = wildcardMark ++ name
  · obtain ⟨name, hname⟩ := hkey
    rw [resolve_wildcard x hname]
    refine .methods hname ((pairwise_ordered hx).filter _) ?_
    intro s
    rw [List.mem_filter, mem_ordered, decide_eq_true_eq]
  · have hwritten : ∀ name, ref.key ≠ wildcardMark ++ name := fun name h => hkey ⟨name, h⟩
    rw [resolve_written x (not_isWildcard hwritten)]
    cases hhere : (ordered x).find? fun s => s.name = ref.key ∧ s.file = ref.file with
    | some s => exact .sameFile hwritten ((find?_ordered_eq_some_iff hx).mp hhere)
    | none =>
      cases hnamed : (ordered x).find? fun s => s.name = ref.key with
      | some s =>
        exact .elsewhere hwritten (find?_ordered_eq_none_iff.mp hhere)
          ((find?_ordered_eq_some_iff hx).mp hnamed)
      | none => exact .nowhere hwritten (find?_ordered_eq_none_iff.mp hnamed)

/-- A scan leaves no choice: what it can find is what the resolver finds. -/
theorem resolve_of_scan {x : Index} (hx : x.KeyedById) {ref : Reference} {found : List Symbol}
    (h : Scan x ref found) : (ofIndex x).resolve ref = found := by
  cases h with
  | @methods name _ hkey hascending hmem =>
    have hsorted := (pairwise_ordered hx).filter fun s => s.kind = .method ∧ s.shortName = name
    rw [resolve_wildcard x hkey]
    apply eq_of_ascending hsorted hascending
    intro s
    rw [hmem, List.mem_filter, mem_ordered, decide_eq_true_eq]
  | sameFile hkey hleast =>
    rw [resolve_written x (not_isWildcard hkey), (find?_ordered_eq_some_iff hx).mpr hleast]
    rfl
  | elsewhere hkey hfile hleast =>
    rw [resolve_written x (not_isWildcard hkey), find?_ordered_eq_none_iff.mpr hfile,
      (find?_ordered_eq_some_iff hx).mpr hleast]
    rfl
  | nowhere hkey hnone =>
    have hfile : ∀ t ∈ x.symbols.values, ¬(t.name = ref.key ∧ t.file = ref.file) :=
      fun t ht hboth => hnone t ht hboth.1
    rw [resolve_written x (not_isWildcard hkey), find?_ordered_eq_none_iff.mpr hfile,
      find?_ordered_eq_none_iff.mpr hnone]
    rfl

/-- A call site means what a scan of the merged declarations finds. Indexes in which every id stands
for the same declaration give it the same meaning, in whatever order they were merged. -/
theorem resolve_merge_iff_scan (base : String) (fs : List Findings) (ref : Reference) :
    (∀ found, (ofIndex (.merge base fs)).resolve ref = found ↔ Scan (.merge base fs) ref found) ∧
    ∀ (base' : String) (gs : List Findings),
      (∀ id, (Index.merge base' gs).symbols.get? id = (Index.merge base fs).symbols.get? id) →
      (ofIndex (.merge base' gs)).resolve ref = (ofIndex (.merge base fs)).resolve ref := by
  have hkeyed := Index.keyedById_merge base fs
  constructor
  · intro found
    constructor
    · rintro rfl
      exact scan_resolve hkeyed ref
    · exact resolve_of_scan hkeyed
  · intro base' gs hsame
    rw [ofIndex_eq_of_get?_eq (Index.keyedById_merge base' gs) hkeyed hsame]

/-- A second function of the name, in another file and with a higher id. -/
def laterRun : Symbol := ⟨"b.js:run:7", "run", .function, "b.js", 7, 7, false, "", none⟩

def laterFile : Findings where
  file := "b.js"
  language := "javascript"
  symbols := [laterRun]

/-- A call site means the function of its own file, although another one has a lower id, and
whichever file comes first. -/
theorem resolve_laterRun_in_own_file :
    (∀ id, (Index.merge "" [laterFile, Index.callingFile]).symbols.get? id =
      (Index.merge "" [Index.callingFile, laterFile]).symbols.get? id) ∧
    Index.runFunction.id < laterRun.id ∧
    (ofIndex (.merge "" [laterFile, Index.callingFile])).resolve
      { key := "run", file := "b.js", line := 9 } = [laterRun] := by
  have hapart : [Index.callingFile, laterFile].Pairwise Index.Apart := by
    simp [Index.Apart, Index.callingFile, laterFile, Index.saveMethod, Index.runFunction, laterRun]
  have hsame : ∀ id, (Index.merge "" [laterFile, Index.callingFile]).symbols.get? id =
      (Index.merge "" [Index.callingFile, laterFile]).symbols.get? id :=
    Index.get?_symbols_merge_perm (.swap _ _ _) hapart
  obtain ⟨hscan, horder⟩ := resolve_merge_iff_scan "" [Index.callingFile, laterFile]
    { key := "run", file := "b.js", line := 9 }
  refine ⟨hsame, by decide +kernel, (horder "" _ hsame).trans ((hscan _).mpr ?_)⟩
  refine .sameFile ?_ ⟨by decide +kernel, by decide +kernel, ?_⟩
  · intro name hname
    have hhead := congrArg (fun s => s.toList.head?) hname
    simp [wildcardMark] at hhead
  · decide +kernel

end CodeAtlas.Resolver
