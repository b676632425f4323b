import CodeAtlas.Attribution
import CodeAtlas.Proofs.Ids
import CodeAtlas.Proofs.Tree.Declarations

/-!
# The declarations of an outline in preorder

The symbols of an outline are collected with a stack that holds entries together
with their containers. They are those of a plain recursion: each entry comes before
its children and these before its siblings, its container is the nearest class or
interface around it, and of several symbols with one id the first is kept. Children
are visited even if their parent is no declaration or one that is there already.
-/

namespace CodeAtlas.Attribution

open Server (Outline)

/-- Whether entries inside an entry of this kind are named after it. -/
def isOwner : Option SymbolKind → Bool
  | some .classDecl | some .interface => true
  | _ => false

/-- The container that the entries around give, nearest first: the first of them that is a class or
an interface, and else what stands at the top. -/
def containerWithin (x : Setting) (top : Value) : List Outline → Value
  | [] => top
  | o :: above =>
    if isOwner (entryKind? x o (containerWithin x top above)) then .text o.name
    else containerWithin x top above

/-- The entries of a forest in preorder, each with its container. -/
def preorder (x : Setting) (top : Value) :
    (above : List Outline) → List Outline → List (Outline × Value)
  | _, [] => []
  | above, o@⟨_, _, _, _, _, _, children⟩ :: rest =>
    (o, containerWithin x top above) ::
      (preorder x top (o :: above) children ++ preorder x top above rest)

/-- All entries of an outline with their containers. At the top it is that which the entry itself
gives. -/
def entries (x : Setting) (outline : List Outline) : List (Outline × Value) :=
  outline.flatMap fun o => preorder x o.container [] [o]

/-- The symbol of an entry that is declared. -/
def declared? (x : Setting) (p : Outline × Value) : Option Symbol :=
  (entryKind? x p.1 p.2).map (declare x p.1 (entryName p.1 p.2))

theorem childContainer_eq (x : Setting) (o : Outline) (container : Value) :
    childContainer x o container =
      if isOwner (entryKind? x o container) then .text o.name else container := by
  unfold childContainer
  split
  next h => simp [h, isOwner]
  next h => simp [h, isOwner]
  next hclass hinterface =>
    cases hkind : entryKind? x o container with
    | none => simp [isOwner]
    | some kind => cases kind <;> simp_all [isOwner]

theorem childContainer_containerWithin (x : Setting) (top : Value) (o : Outline)
    (above : List Outline) :
    childContainer x o (containerWithin x top above) = containerWithin x top (o :: above) :=
  childContainer_eq x o _

theorem record_eq (x : Setting) (symbols : List Symbol) (p : Outline × Value) :
    record x symbols p.1 p.2 = (declared? x p).elim symbols (addSymbol symbols) := by
  unfold record declared?
  cases entryKind? x p.1 p.2 <;> rfl

theorem preorder_cons (x : Setting) (top : Value) (above : List Outline) (o : Outline)
    (rest : List Outline) :
    preorder x top above (o :: rest) = (o, containerWithin x top above) ::
      (preorder x top (o :: above) o.children ++ preorder x top above rest) := by
  cases o
  rw [preorder]

theorem collect_cons (x : Setting) (kept : List Symbol) (o : Outline) (container : Value)
    (stack : List (Outline × Value)) :
    collect x kept ((o, container) :: stack) = collect x (record x kept o container)
      (under (childContainer x o container) o.children ++ stack) := by
  rw [collect]

/-- The stack works through a forest as the recursion does, and leaves what is below it. -/
theorem collect_under (x : Setting) (top : Value) (above forest : List Outline)
    (kept : List Symbol) (stack : List (Outline × Value)) :
    collect x kept (under (containerWithin x top above) forest ++ stack) =
      collect x (((preorder x top above forest).filterMap (declared? x)).foldl
        addSymbol kept) stack := by
  induction above, forest using preorder.induct generalizing kept stack with
  | case1 above => simp [preorder, under]
  | case2 above name kind line endLine detail container children rest ihc ihr =>
    rw [preorder_cons, under, List.map_cons, List.cons_append, collect_cons,
      childContainer_containerWithin, ihc]
    rw [← under, ihr, record_eq x kept (_, _), List.filterMap_cons]
    cases declared? x (_, containerWithin x top above) <;> simp

theorem symbols_eq_foldl (outline : List Outline) (walked : Findings) (file : String)
    (lines : List (List Char)) :
    symbols outline walked file lines =
      ((entries ⟨walked.symbols, file, lines⟩ outline).filterMap
        (declared? ⟨walked.symbols, file, lines⟩)).foldl addSymbol [] := by
  let x : Setting := ⟨walked.symbols, file, lines⟩
  -- the roots stand on the stack each with its own container, so they are taken one by one
  have hroots : ∀ kept, collect x kept (outline.map fun o => (o, o.container)) =
      ((entries x outline).filterMap (declared? x)).foldl addSymbol kept := by
    induction outline with
    | nil => intro kept; simp [entries, collect]
    | cons o rest ih =>
      intro kept
      have hroot := collect_under x o.container [] [o] kept (rest.map fun o => (o, o.container))
      have hunder : under (containerWithin x o.container []) [o] = [(o, o.container)] := rfl
      rw [hunder] at hroot
      rw [List.map_cons, ← List.singleton_append, hroot, ih]
      simp [entries]
  exact hroots []

/-- Adding symbols one by one keeps the first of each id, unless it is there at the start. -/
theorem foldl_addSymbol_eq (ds kept : List Symbol) :
    ds.foldl addSymbol kept = kept ++
      (ds.filter fun d => !kept.any fun t => t.id == d.id).eraseDupsBy fun s t => s.id == t.id := by
  induction ds generalizing kept with
  | nil => simp
  | cons d ds ih =>
    rw [List.foldl_cons, ih, addSymbol]
    by_cases hkept : kept.any (fun t => t.id == d.id) = true
    · rw [if_pos hkept, List.filter_cons_of_neg (by simp [hkept])]
    · rw [if_neg hkept, List.filter_cons_of_pos (by simp [hkept]), List.eraseDupsBy_cons,
        List.filter_filter, List.append_assoc, List.singleton_append]
      congr 3
      apply List.filter_congr
      intro e _
      rw [List.any_append, Bool.not_or, Bool.and_comm]
      congr 1
      by_cases hid : d.id = e.id
      · simp [hid]
      · simp [hid, Ne.symm hid]

theorem Setting.mem_of_known? {x : Setting} {name : String} {w : Symbol}
    (h : x.known? name = some w) : w ∈ x.walked ∧ w.name = name := by
  have hname := List.find?_some h
  exact ⟨List.mem_reverse.mp (List.mem_of_find?_eq_some h), by simpa using hname⟩

theorem Setting.exists_known?_iff (x : Setting) (name : String) :
    (∃ w, x.known? name = some w) ↔ ∃ w ∈ x.walked, w.name = name := by
  simp [Setting.known?, ← Option.isSome_iff_exists]

/-- An entry is declared by its kind, or as a variable or member that the tree has by its name. -/
def IsDeclared (x : Setting) (p : Outline × Value) : Prop :=
  (∃ kind, kindOf? p.1.kind = some kind) ∨
  (isVariable p.1.kind = true ∨ isMember p.1.kind = true) ∧
    ∃ w ∈ x.walked, w.name = entryName p.1 p.2

theorem exists_entryKind?_iff (x : Setting) (p : Outline × Value) :
    (∃ kind, entryKind? x p.1 p.2 = some kind) ↔ IsDeclared x p := by
  unfold entryKind? IsDeclared
  cases hkind : kindOf? p.1.kind with
  | some kind => simp
  | none =>
    by_cases h : isVariable p.1.kind = true ∨ isMember p.1.kind = true
    · simp [h, ← Setting.exists_known?_iff, ← Option.isSome_iff_exists]
    · simp [h]

theorem isKnown_of_entryKind? {x : Setting} (hx : ∀ w ∈ x.walked, w.kind.isKnown = true)
    {p : Outline × Value} {kind : SymbolKind} (h : entryKind? x p.1 p.2 = some kind) :
    kind.isKnown = true := by
  unfold entryKind? at h
  split at h
  next mapped hmapped =>
    cases h
    unfold kindOf? at hmapped
    split at hmapped <;> cases hmapped <;> rfl
  next =>
    split at h
    · obtain ⟨w, hw, rfl⟩ := Option.map_eq_some_iff.mp h
      exact hx w (Setting.mem_of_known? hw).1
    · cases h

/-- Methods, constructors, properties and fields: what is named after its container. -/
def ownedKinds : List Int := [6, 9, 7, 8]

theorem isOwned_iff (kind : Int) :
    (kindOf? kind = some .method || isMember kind) = true ↔ kind ∈ ownedKinds := by
  have hmethod : kindOf? kind = some .method ↔ kind = 6 ∨ kind = 9 := by
    unfold kindOf?
    split <;> simp_all
  simp [hmethod, isMember, ownedKinds, or_assoc]

/-- A symbol is that of an entry with a container. -/
structure Declares (file : String) (p : Outline × Value) (s : Symbol) : Prop where
  id : s.id = symbolId file s.name s.line
  file : s.file = file
  line : s.line = p.1.line
  endLine : s.endLine = p.1.endLine
  owned : p.1.kind ∈ ownedKinds → p.2.isGiven = true → s.name = p.2.display ++ "." ++ p.1.name
  free : ¬(p.1.kind ∈ ownedKinds ∧ p.2.isGiven = true) → s.name = p.1.name

theorem declares_declare (x : Setting) (p : Outline × Value) (kind : SymbolKind) :
    Declares x.file p (declare x p.1 (entryName p.1 p.2) kind) where
  id := rfl
  file := rfl
  line := rfl
  endLine := rfl
  owned := by
    intro hkind hgiven
    simp [declare, entryName, (isOwned_iff p.1.kind).mpr hkind, hgiven]
  free := by
    intro h
    rw [← isOwned_iff, ← Bool.and_eq_true] at h
    simp [declare, entryName, h]

theorem exists_of_mem_symbols {outline : List Outline} {walked : Findings} {file : String}
    {lines : List (List Char)} {s : Symbol} (h : s ∈ symbols outline walked file lines) :
    ∃ p ∈ entries ⟨walked.symbols, file, lines⟩ outline,
      declared? ⟨walked.symbols, file, lines⟩ p = some s := by
  rw [symbols_eq_foldl, mem_foldl_addSymbol_iff] at h
  obtain h | ⟨-, h⟩ := h
  · cases h
  · exact List.mem_filterMap.mp (List.mem_of_find?_eq_some h)

theorem exists_mem_symbols {outline : List Outline} {walked : Findings} {file : String}
    {lines : List (List Char)} {p : Outline × Value}
    (hp : p ∈ entries ⟨walked.symbols, file, lines⟩ outline)
    (h : IsDeclared ⟨walked.symbols, file, lines⟩ p) :
    ∃ s ∈ symbols outline walked file lines, s.id = symbolId file (entryName p.1 p.2) p.1.line := by
  obtain ⟨kind, hkind⟩ := (exists_entryKind?_iff _ p).mpr h
  rw [symbols_eq_foldl]
  apply exists_mem_foldl_addSymbol
    (d := declare ⟨walked.symbols, file, lines⟩ p.1 (entryName p.1 p.2) kind)
  exact List.mem_filterMap.mpr ⟨p, hp, by simp [declared?, hkind]⟩

/-- The symbols of an outline are those of the recursion over its entries, the first of each id.
Their ids are distinct and made of file, name and line, and their kinds are known. Each of them is
that of an entry which is declared, and each such entry has a symbol with its id. So all lines can
be written if those of the declared entries can. -/
theorem symbols_eq_preorder (outline : List Outline) (walked : Findings) (file : String)
    (lines : List (List Char)) (hwalked : ∀ w ∈ walked.symbols, w.kind.isKnown = true) :
    let x : Setting := ⟨walked.symbols, file, lines⟩
    let kept := symbols outline walked file lines
    kept = ((entries x outline).filterMap (declared? x)).eraseDupsBy (fun s t => s.id == t.id) ∧
    (kept.map Symbol.id).Nodup ∧
    (∀ s ∈ kept, s.kind.isKnown = true ∧
      ∃ p ∈ entries x outline, IsDeclared x p ∧ Declares file p s) ∧
    (∀ p ∈ entries x outline, IsDeclared x p →
      ∃ s ∈ kept, s.id = symbolId file (entryName p.1 p.2) p.1.line) ∧
    ((∀ s ∈ kept, Text.isWritable s.line = true) ↔
      ∀ p ∈ entries x outline, IsDeclared x p → Text.isWritable p.1.line = true) := by
  intro x kept
  have hentry : ∀ s ∈ kept, s.kind.isKnown = true ∧
      ∃ p ∈ entries x outline, IsDeclared x p ∧ Declares file p s := by
    intro s hs
    obtain ⟨p, hp, hdeclared⟩ := exists_of_mem_symbols hs
    obtain ⟨kind, hkind, rfl⟩ := Option.map_eq_some_iff.mp hdeclared
    exact ⟨isKnown_of_entryKind? hwalked hkind, p, hp,
      (exists_entryKind?_iff x p).mp ⟨kind, hkind⟩, declares_declare x p kind⟩
  refine ⟨?_, ?_, hentry, fun p hp h => exists_mem_symbols hp h, ?_, ?_⟩
  · simpa using (symbols_eq_foldl outline walked file lines).trans (foldl_addSymbol_eq _ [])
  · rw [show kept = _ from symbols_eq_foldl outline walked file lines]
    exact nodup_ids_foldl_addSymbol _ List.nodup_nil
  · intro h p hp hdeclared
    obtain ⟨s, hs, hid⟩ := exists_mem_symbols hp hdeclared
    obtain ⟨-, q, -, -, hsymbol⟩ := hentry s hs
    rw [hsymbol.id] at hid
    rw [← (eq_of_symbolId_eq hid).2]
    exact h s hs
  · intro h s hs
    obtain ⟨-, p, hp, hdeclared, hsymbol⟩ := hentry s hs
    rw [hsymbol.line]
    exact h p hp hdeclared

/-- A class with a field, and a constant in a method of it. -/
def widgetOutline : List Outline :=
  [⟨"Widget", 5, 1, 9, .text "", .null,
    [⟨"render", 6, 2, 4, .text "", .text "Widget",
      [⟨"paint", 14, 3, 3, .text "", .text "render", []⟩]⟩,
      ⟨"onClick", 8, 5, 7, .text "", .text "Widget", []⟩]⟩]

/-- What the tree has of it: the constant and the field hold functions. -/
def widgetWalk : Findings :=
  { file := "w.js", language := "javascript"
    symbols :=
      [{ id := "w.js:paint:3", name := "paint", kind := .function, file := "w.js", line := 3
         endLine := 3 },
        { id := "w.js:Widget.onClick:5", name := "Widget.onClick", kind := .method, file := "w.js"
          line := 5, endLine := 7 }] }

/-- The field is a declaration, named after the class. -/
theorem symbols_eq_preorder_widgetOutline :
    (∀ w ∈ widgetWalk.symbols, w.kind.isKnown = true) ∧
    (⟨"onClick", 8, 5, 7, .text "", .text "Widget", []⟩, .text "Widget") ∈
      entries ⟨widgetWalk.symbols, "w.js", []⟩ widgetOutline ∧
    ∃ s ∈ symbols widgetOutline widgetWalk "w.js" [], s.id = "w.js:Widget.onClick:5" := by
  have hwalked : ∀ w ∈ widgetWalk.symbols, w.kind.isKnown = true := by decide
  have hentry : (⟨"onClick", 8, 5, 7, .text "", .text "Widget", []⟩, .text "Widget") ∈
      entries ⟨widgetWalk.symbols, "w.js", []⟩ widgetOutline := by
    simp [entries, widgetOutline, preorder, containerWithin, entryKind?, kindOf?, isOwner]
  obtain ⟨-, -, -, hall, -⟩ := symbols_eq_preorder widgetOutline widgetWalk "w.js" [] hwalked
  refine ⟨hwalked, hentry, hall _ hentry (.inr ⟨.inr rfl, ?_⟩)⟩
  decide

end CodeAtlas.Attribution
