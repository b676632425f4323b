import CodeAtlas.Proofs.Attribution.Traversal
import CodeAtlas.Proofs.Consistency
import CodeAtlas.Proofs.Tree.Callers

/-!
# What the tree knows of an outlined declaration

A symbol of an outline takes over what the tree knows of the declaration: whether it
is exported, its signature and its documentation. It is looked up by its name, and of
several declarations with one name the last answers. An id has the line as well, so a
symbol with the id of an earlier one, such as the first of two accessors, carries what
is known of the last.
-/

namespace CodeAtlas.Attribution

open Server (Outline)

/-- What is known of a declaration beside its name, kind and place. -/
def metadata (s : Symbol) : Bool × String × Option String := (s.exported, s.signature, s.docstring)

/-- A declaration with no other of its name behind it. -/
def IsLast (walked : List Symbol) (w : Symbol) : Prop :=
  ∃ before after, walked = before ++ w :: after ∧ ∀ u ∈ after, u.name ≠ w.name

theorem Setting.known?_eq_some_iff (x : Setting) (name : String) (w : Symbol) :
    x.known? name = some w ↔ IsLast x.walked w ∧ w.name = name := by
  rw [Setting.known?, List.find?_eq_some_iff_append]
  constructor
  · rintro ⟨hname, later, earlier, hsplit, hlater⟩
    have hname : w.name = name := by simpa using hname
    refine ⟨⟨earlier.reverse, later.reverse, ?_, ?_⟩, hname⟩
    · simpa using congrArg List.reverse hsplit
    · simpa [hname] using hlater
  · rintro ⟨⟨before, after, hsplit, hafter⟩, rfl⟩
    refine ⟨by simp, after.reverse, before.reverse, by simp [hsplit], ?_⟩
    simpa using hafter

theorem metadata_declare {x : Setting} {o : Outline} {name : String} {kind : SymbolKind}
    {w : Symbol} (h : x.known? name = some w) : metadata (declare x o name kind) = metadata w := by
  simp [metadata, declare, h]

/-- A symbol with the id of a walked declaration carries what is known of the last one with its
name. -/
theorem exists_last_of_mem_symbols {outline : List Outline} {walked : Findings}
    {lines : List (List Char)} {d w : Symbol}
    (hd : d ∈ symbols outline walked walked.file lines) (hw : w ∈ walked.symbols)
    (hwid : w.id = symbolId walked.file w.name w.line) (hid : d.id = w.id) :
    ∃ v, IsLast walked.symbols v ∧ v.name = w.name ∧ metadata d = metadata v := by
  obtain ⟨p, -, hdeclared⟩ := exists_of_mem_symbols hd
  obtain ⟨kind, -, rfl⟩ := Option.map_eq_some_iff.mp hdeclared
  have hname : entryName p.1 p.2 = w.name := by
    obtain ⟨hnames, -⟩ := eq_of_symbolId_eq (hid.trans hwid)
    exact String.toList_inj.mp (by simpa using hnames)
  obtain ⟨v, hv⟩ := (Setting.exists_known?_iff ⟨walked.symbols, walked.file, lines⟩ w.name).mpr
    ⟨w, hw, rfl⟩
  obtain ⟨hlast, hvname⟩ := (Setting.known?_eq_some_iff _ _ _).mp hv
  rw [← hname] at hv
  exact ⟨v, hlast, hvname, metadata_declare hv⟩

theorem IsLast.unique {walked : List Symbol} {v w : Symbol} (hv : IsLast walked v)
    (hw : IsLast walked w) (hname : v.name = w.name) : v = w := by
  let x : Setting := ⟨walked, "", []⟩
  have hv : x.known? w.name = some v := (x.known?_eq_some_iff _ _).mpr ⟨hv, hname⟩
  have hw : x.known? w.name = some w := (x.known?_eq_some_iff _ _).mpr ⟨hw, rfl⟩
  exact Option.some.inj (hv.symm.trans hw)

/-- A symbol of an outline with the id of a declaration that the pass over the tree has kept
carries what is known of this declaration exactly if the last one with its name agrees with it. So
it does whenever no other one of this name comes later. -/
theorem metadata_kept_unless_redeclared (s : Tree.Source) (root : Tree.Node)
    (outline : List Outline) (lines : List (List Char)) {d w : Symbol}
    (hd : d ∈ symbols outline (Tree.findings s root) s.file lines)
    (hw : w ∈ (Tree.findings s root).symbols) (hid : d.id = w.id) :
    (metadata d = metadata w ↔
      ∀ v, IsLast (Tree.findings s root).symbols v → v.name = w.name → metadata v = metadata w) ∧
    (IsLast (Tree.findings s root).symbols w → metadata d = metadata w) := by
  have hwid := (Tree.wellFormed_findings s root).symbol_id w hw
  obtain ⟨last, hlast, hname, hmetadata⟩ := exists_last_of_mem_symbols hd hw hwid hid
  refine ⟨⟨?_, ?_⟩, ?_⟩
  · intro h v hv hvname
    rw [hv.unique hlast (hvname.trans hname.symm), ← hmetadata, h]
  · intro h
    rw [hmetadata, h last hlast hname]
  · intro h
    rw [hmetadata, hlast.unique h hname]

/-- Two accessors of one name, each on a line of its own. -/
def accessorText : List Char :=
  "class A \x7b get x() \x7b a() \x7d\nset x(v) \x7b b() \x7d \x7d".toList

/-- What the tree has of them. -/
def accessorWalk : Findings :=
  Tree.findings (.ofText "t.js" "javascript" accessorText) Tree.accessorClass

/-- The outline that a server gives of them. -/
def accessorOutline : List Outline :=
  [⟨"A", 5, 1, 2, .text "", .null,
    [⟨"x", 7, 1, 1, .text "", .text "A", []⟩, ⟨"x", 7, 2, 2, .text "", .text "A", []⟩]⟩]

theorem symbols_accessorOutline (walked : Findings) (file : String) (lines : List (List Char)) :
    let x : Setting := ⟨walked.symbols, file, lines⟩
    symbols accessorOutline walked file lines =
      record x (record x (record x [] ⟨"A", 5, 1, 2, .text "", .null,
          [⟨"x", 7, 1, 1, .text "", .text "A", []⟩, ⟨"x", 7, 2, 2, .text "", .text "A", []⟩]⟩ .null)
        ⟨"x", 7, 1, 1, .text "", .text "A", []⟩ (.text "A"))
        ⟨"x", 7, 2, 2, .text "", .text "A", []⟩ (.text "A") := by
  simp [symbols, accessorOutline, collect_cons, collect, under, childContainer, entryKind?, kindOf?]

def accessorOwner : Symbol :=
  { id := "t.js:A:1", name := "A", kind := .classDecl, file := "t.js", line := 1, endLine := 2
    signature := "class A \x7b get x() \x7b a() \x7d" }

def firstAccessor : Symbol :=
  { id := "t.js:A.x:1", name := "A.x", kind := .method, file := "t.js", line := 1, endLine := 1
    signature := "class A \x7b get x() \x7b a() \x7d" }

def secondAccessor : Symbol :=
  { id := "t.js:A.x:2", name := "A.x", kind := .method, file := "t.js", line := 2, endLine := 2
    signature := "set x(v) \x7b b() \x7d \x7d" }

theorem symbols_accessorWalk :
    accessorWalk.symbols = [accessorOwner, firstAccessor, secondAccessor] := by
  decide +kernel

/-- The second accessor is the last of its name, so its symbol carries its own signature. -/
theorem metadata_kept_secondAccessor :
    secondAccessor ∈ symbols accessorOutline accessorWalk "t.js" (Text.sourceLines accessorText) ∧
    secondAccessor ∈ accessorWalk.symbols ∧ IsLast accessorWalk.symbols secondAccessor ∧
    ∀ d ∈ symbols accessorOutline accessorWalk "t.js" (Text.sourceLines accessorText),
      d.id = secondAccessor.id → metadata d = metadata secondAccessor := by
  have hd : secondAccessor ∈
      symbols accessorOutline accessorWalk "t.js" (Text.sourceLines accessorText) := by
    rw [symbols_accessorOutline, symbols_accessorWalk]
    decide +kernel
  have hw : secondAccessor ∈ accessorWalk.symbols := by simp [symbols_accessorWalk]
  have hlast : IsLast accessorWalk.symbols secondAccessor :=
    ⟨[accessorOwner, firstAccessor], [], symbols_accessorWalk, by simp⟩
  refine ⟨hd, hw, hlast, ?_⟩
  intro d hd hid
  exact (metadata_kept_unless_redeclared _ _ _ _ hd hw hid).2 hlast

/-- The symbol with the id of the first accessor carries the signature of the second. -/
theorem metadata_mixed_accessorOutline :
    firstAccessor ∈ accessorWalk.symbols ∧
    ∃ d ∈ symbols accessorOutline accessorWalk "t.js" (Text.sourceLines accessorText),
      d.id = firstAccessor.id ∧ d.signature = secondAccessor.signature ∧
      metadata d ≠ metadata firstAccessor := by
  refine ⟨by simp [symbols_accessorWalk],
    { firstAccessor with signature := secondAccessor.signature }, ?_, rfl, rfl, by decide⟩
  rw [symbols_accessorOutline, symbols_accessorWalk]
  decide +kernel

end CodeAtlas.Attribution
