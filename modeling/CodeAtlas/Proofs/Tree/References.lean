import CodeAtlas.Proofs.Tree.Places

/-!
# Call sites and imports without notes

The context in which the pass meets a node is a function of the place alone: the
classes are those whose bodies are around it, and the caller is the nearest
function around it that has a name, unless a class body comes in between. So the
pass is a fold over the places that it comes to, and call sites and imports never
depend on the declarations that were met before.
-/

namespace CodeAtlas.Tree

namespace Place

/-- The places around a node, from the inside out. -/
def outwards : List Frame → List Place
  | [] => []
  | f :: rest => ⟨f.parent, rest⟩ :: outwards rest

/-- A place and those around it, from the inside out. -/
def lineage (p : Place) : List Place := p :: outwards p.above

theorem lineage_child (p : Place) (before : List Node) (n : Node) :
    (p.child before n).lineage = p.child before n :: p.lineage := rfl

end Place

/-- The name of the class whose body is at a place. -/
def bodyOwner? (s : Source) (p : Place) : Option String :=
  match p.above with
  | [] => none
  | f :: rest =>
    if Category.ofType f.parent.type = .classDecl ∧
        f.parent.childIndex? "body" = some f.before.length then
      className? s ⟨f.parent, rest⟩
    else none

/-- The names of the classes whose bodies are around a place or at it, the innermost first. -/
def classesAt (s : Source) (p : Place) : List String := p.lineage.filterMap (bodyOwner? s)

/-- The id of a function that has a name. -/
def functionId? (s : Source) (p : Place) : Option String :=
  if Category.ofType p.node.type = .function then
    (functionName? s p ⟨classesAt s p, none⟩).map fun named =>
      symbolId s.file named.1 (s.line p.node)
  else none

/-- The caller by the places around: the first function with a name behind the first place, unless
a class body comes first. -/
def callerAmong (s : Source) : List Place → Option String
  | p :: q :: rest =>
    if (bodyOwner? s p).isSome then none
    else (functionId? s q).or (callerAmong s (q :: rest))
  | _ => none

/-- The context of a place. -/
def contextAt (s : Source) (p : Place) : Context := ⟨classesAt s p, callerAmong s p.lineage⟩

theorem bodyOwner?_child (s : Source) (p : Place) (before : List Node) (n : Node) :
    bodyOwner? s (p.child before n) =
      if Category.ofType p.node.type = .classDecl ∧
          p.node.childIndex? "body" = some before.length then
        className? s p
      else none := rfl

theorem contextAt_child (s : Source) (p : Place) (before : List Node) (n : Node) :
    contextAt s (p.child before n) =
      match bodyOwner? s (p.child before n) with
      | some name => (contextAt s p).pushClass name
      | none => ⟨classesAt s p, (functionId? s p).or (contextAt s p).caller⟩ := by
  rw [contextAt, classesAt, Place.lineage_child, List.filterMap_cons]
  have hcaller : callerAmong s (p.child before n :: p.lineage) =
      if (bodyOwner? s (p.child before n)).isSome then none
      else (functionId? s p).or (callerAmong s p.lineage) := rfl
  rw [hcaller]
  cases bodyOwner? s (p.child before n) <;> rfl

/-- A node hands its children their contexts, unless it is closed. -/
theorem contextAt_descent (s : Source) (p : Place) (before : List Node) (n : Node) :
    (yieldOf s p (contextAt s p)).descent.contextAt before.length =
      if isClosed s p then none else some (contextAt s (p.child before n)) := by
  rw [contextAt_child, bodyOwner?_child]
  unfold yieldOf isClosed functionId?
  cases hcategory : Category.ofType p.node.type with
  | function =>
    -- the name depends on the classes of the context alone
    have hname : functionName? s p (contextAt s p) =
        functionName? s p ⟨classesAt s p, none⟩ := rfl
    unfold functionYield
    rw [hname]
    cases functionName? s p ⟨classesAt s p, none⟩ <;> rfl
  | classDecl =>
    unfold classYield
    cases className? s p with
    | none => rfl
    | some name =>
      by_cases hbody : p.node.childIndex? "body" = some before.length
      · simp [Descent.contextAt, hbody]
      · simp [Descent.contextAt, hbody, contextAt]
  | interface | typeAlias | importStatement | exportStatement | other => rfl
  | call =>
    unfold callYield
    cases requireImport? s p <;> rfl

/-- Records what a place yields in its context. -/
def recordAt (s : Source) (notes : Notes) (p : Place) : Notes :=
  notes.record (yieldOf s p (contextAt s p))

/-- The pass over some children, if it is the fold over the places from each of them on. -/
theorem visitChildren_eq_foldl {s : Source} {p : Place} {before ns : List Node} (notes : Notes)
    (hopen : isClosed s p = false)
    (hns : ∀ c ∈ ns, ∀ above notes, visit s above (contextAt s ⟨c, above⟩) notes c =
      (places s above c).foldl (recordAt s) notes) :
    visitChildren s p.node p.above (yieldOf s p (contextAt s p)).descent before notes ns =
      (placesBelow s p.node p.above before ns).foldl (recordAt s) notes := by
  induction ns generalizing before notes with
  | nil => rw [visitChildren, placesBelow, List.foldl_nil]
  | cons c ns ih =>
    have hrest : ∀ notes, visitChildren s p.node p.above (yieldOf s p (contextAt s p)).descent
        (c :: before) notes ns =
        (placesBelow s p.node p.above (c :: before) ns).foldl (recordAt s) notes :=
      fun notes => ih notes fun d hd => hns d (List.mem_cons_of_mem _ hd)
    rw [visitChildren, placesBelow, List.foldl_append, contextAt_descent s p before c, hopen]
    cases hnamed : c.named with
    | true =>
      simp only [if_true, Bool.false_eq_true, if_false]
      rw [hrest, ← hns c List.mem_cons_self]
      rfl
    | false =>
      simp only [Bool.false_eq_true, if_false, List.foldl_nil]
      exact hrest notes

theorem visitChildren_stop (s : Source) (parent : Node) (above : List Frame)
    (before ns : List Node) (notes : Notes) :
    visitChildren s parent above .stop before notes ns = notes := by
  induction ns generalizing before with
  | nil => rw [visitChildren]
  | cons c ns ih =>
    rw [visitChildren]
    cases c.named <;> exact ih (c :: before)

/-- A closed node ends the pass below it. -/
theorem descent_of_isClosed {s : Source} {p : Place} (h : isClosed s p = true) (ctx : Context) :
    (yieldOf s p ctx).descent = .stop := by
  unfold isClosed at h
  unfold yieldOf
  cases hcategory : Category.ofType p.node.type with
  | interface | typeAlias | importStatement => rfl
  | classDecl =>
    rw [hcategory] at h
    unfold classYield
    rw [Option.isNone_iff_eq_none.mp h]
  | function | call | exportStatement | other =>
    rw [hcategory] at h
    cases h

/-- The pass records what each place yields, in the order in which they are listed. -/
theorem visit_eq_foldl (s : Source) (n : Node) (above : List Frame) (notes : Notes) :
    visit s above (contextAt s ⟨n, above⟩) notes n =
      (places s above n).foldl (recordAt s) notes := by
  induction n using Node.induction generalizing above notes with
  | step n ih =>
    have hvisit : visit s above (contextAt s ⟨n, above⟩) notes n =
        visitChildren s n above (yieldOf s ⟨n, above⟩ (contextAt s ⟨n, above⟩)).descent []
          (recordAt s notes ⟨n, above⟩) n.children := by
      obtain ⟨_, _, _, _, _, _, children⟩ := n
      rw [visit]
      rfl
    rw [hvisit, places_eq s ⟨n, above⟩, List.foldl_cons]
    cases hclosed : isClosed s ⟨n, above⟩ with
    | true =>
      rw [descent_of_isClosed hclosed, visitChildren_stop]
      rfl
    | false => exact visitChildren_eq_foldl (p := ⟨n, above⟩) _ hclosed ih

/-- The call sites at a place: those of a call that is not recorded as an import. -/
def referencesAt (s : Source) (p : Place) : List Reference :=
  if Category.ofType p.node.type = .call ∧ requireImport? s p = none then
    callReferences s p.node (contextAt s p)
  else []

/-- The imports at a place. -/
def importsAt (s : Source) (p : Place) : List Import :=
  match Category.ofType p.node.type with
  | .call => (requireImport? s p).toList
  | .importStatement => (importOf? s p.node).toList
  | .exportStatement => (exportImport? s p.node).toList
  | _ => []

/-- What a place yields, the declarations apart. -/
theorem yieldOf_contextAt (s : Source) (p : Place) :
    (yieldOf s p (contextAt s p)).references = referencesAt s p ∧
    (yieldOf s p (contextAt s p)).imports = importsAt s p := by
  unfold yieldOf referencesAt importsAt
  cases Category.ofType p.node.type with
  | function =>
    unfold functionYield
    cases functionName? s p (contextAt s p) <;> exact ⟨rfl, rfl⟩
  | classDecl =>
    unfold classYield
    cases className? s p <;> exact ⟨rfl, rfl⟩
  | call =>
    unfold callYield
    cases requireImport? s p <;> exact ⟨rfl, rfl⟩
  | interface | typeAlias | importStatement | exportStatement | other => exact ⟨rfl, rfl⟩

theorem foldl_recordAt (s : Source) (ps : List Place) (notes : Notes) :
    (ps.foldl (recordAt s) notes).references =
      notes.references ++ ps.flatMap (referencesAt s) ∧
    (ps.foldl (recordAt s) notes).imports = notes.imports ++ ps.flatMap (importsAt s) := by
  induction ps generalizing notes with
  | nil => simp
  | cons p ps ih =>
    obtain ⟨hreferences, himports⟩ := yieldOf_contextAt s p
    obtain ⟨ihreferences, ihimports⟩ := ih (recordAt s notes p)
    rw [List.foldl_cons, List.flatMap_cons, List.flatMap_cons, ← List.append_assoc,
      ← List.append_assoc, ← hreferences, ← himports]
    exact ⟨ihreferences, ihimports⟩

/-- The function with an id is the caller at a place: the nearest one around that has a name, with
no class body from the place up to it. -/
def IsCaller (s : Source) (p : Place) (id : String) : Prop :=
  ∃ inner q outer, p.lineage = p :: inner ++ q :: outer ∧ functionId? s q = some id ∧
    (∀ r ∈ inner, functionId? s r = none) ∧ ∀ r ∈ p :: inner, bodyOwner? s r = none

/-- The innermost class whose body is around a place or at it has a name. -/
def IsOwner (s : Source) (p : Place) (name : String) : Prop :=
  ∃ inner q outer, p.lineage = inner ++ q :: outer ∧ bodyOwner? s q = some name ∧
    ∀ r ∈ inner, bodyOwner? s r = none

theorem callerAmong_eq_some_iff (s : Source) (id : String) (p : Place) (ps : List Place) :
    callerAmong s (p :: ps) = some id ↔
      ∃ inner q outer, ps = inner ++ q :: outer ∧ functionId? s q = some id ∧
        (∀ r ∈ inner, functionId? s r = none) ∧ ∀ r ∈ p :: inner, bodyOwner? s r = none := by
  induction ps generalizing p with
  | nil => simp [callerAmong]
  | cons q ps ih =>
    rw [callerAmong]
    cases hbody : bodyOwner? s p with
    | some name => simp [hbody]
    | none =>
      rw [Option.isSome_none, if_neg Bool.false_ne_true, Option.or_eq_some_iff, ih q]
      -- either the next place is the caller, or the way goes on from it
      constructor
      · rintro (hid | ⟨hnone, inner, r, outer, rfl, hid, hinner, hbodies⟩)
        · exact ⟨[], q, ps, rfl, hid, by simp, by simpa using hbody⟩
        · refine ⟨q :: inner, r, outer, rfl, hid, ?_, ?_⟩
          · exact List.forall_mem_cons.mpr ⟨hnone, hinner⟩
          · exact List.forall_mem_cons.mpr ⟨hbody, hbodies⟩
      · rintro ⟨inner, r, outer, hsplit, hid, hinner, hbodies⟩
        rcases List.append_eq_cons_iff.mp hsplit.symm with ⟨rfl, hhead⟩ | ⟨inner', rfl, rfl⟩
        · obtain ⟨rfl, rfl⟩ := List.cons.inj hhead
          exact .inl hid
        · obtain ⟨hnone, hinner⟩ := List.forall_mem_cons.mp hinner
          exact .inr ⟨hnone, inner', r, outer, rfl, hid, hinner,
            (List.forall_mem_cons.mp hbodies).2⟩

theorem caller_contextAt_iff (s : Source) (p : Place) (id : String) :
    (contextAt s p).caller = some id ↔ IsCaller s p id := by
  refine (callerAmong_eq_some_iff s id p (Place.outwards p.above)).trans ?_
  simp only [IsCaller, Place.lineage, List.cons_append, List.cons.injEq, true_and]

theorem currentClass?_contextAt_iff (s : Source) (p : Place) (name : String) :
    (contextAt s p).currentClass? = some name ↔ IsOwner s p name := by
  have hhead : (contextAt s p).currentClass? = p.lineage.findSome? (bodyOwner? s) :=
    List.head?_filterMap
  rw [hhead, List.findSome?_eq_some_iff, IsOwner]

theorem currentClass?_contextAt_eq_none_iff (s : Source) (p : Place) :
    (contextAt s p).currentClass? = none ↔ ∀ name, ¬IsOwner s p name := by
  simp only [← currentClass?_contextAt_iff, Option.eq_none_iff_forall_ne_some, ne_eq]

/-- A member of the object itself. -/
structure IsSelfAccess (n prop : Node) : Prop where
  type : n.type ≠ "identifier"
  receiver : ∃ receiver, n.child? "object" = some receiver ∧ isSelf receiver = true
  property : n.child? "property" = some prop

theorem IsSelfAccess.accessKey {n prop : Node} (h : IsSelfAccess n prop) (s : Source)
    (ctx : Context) :
    accessKey s n ctx =
      match ctx.currentClass? with
      | some "" | none => s.text prop
      | some owner => owner ++ "." ++ s.text prop := by
  obtain ⟨receiver, hreceiver, hself⟩ := h.receiver
  have htype : (n.type == "identifier") = false := beq_eq_false_iff_ne.mpr h.type
  unfold Tree.accessKey
  rw [htype, hreceiver, h.property]
  dsimp only
  rw [hself]
  rfl

theorem caller_of_mem_callReferences {s : Source} {n : Node} {ctx : Context} {r : Reference}
    (h : r ∈ callReferences s n ctx) : r.caller = ctx.caller := by
  rw [callReferences, List.mem_append] at h
  rcases h with h | h
  · cases hf : n.child? "function" with
    | none => simp [hf] at h
    | some f =>
      rw [hf] at h
      obtain ⟨key, -, rfl⟩ := List.mem_map.mp h
      rfl
  · cases hargs : n.child? "arguments" with
    | none => simp [hargs] at h
    | some arguments =>
      rw [hargs] at h
      dsimp only at h
      split at h
      · obtain ⟨arg, -, hkey⟩ := List.mem_filterMap.mp h
        obtain ⟨key, -, rfl⟩ := Option.map_eq_some_iff.mp hkey
        rfl
      · cases h

theorem caller_of_mem_referencesAt {s : Source} {p : Place} {r : Reference}
    (h : r ∈ referencesAt s p) : r.caller = (contextAt s p).caller := by
  unfold referencesAt at h
  split at h
  · exact caller_of_mem_callReferences h
  · cases h

/-- Call sites and imports are those of the places that a way leads to, each taken once from the top
and the left. The caller of a call site and the owner of a member of the object itself are found by
the place alone. -/
theorem findings_eq_flatMap_places (s : Source) (root : Node) :
    (findings s root).references = (places s [] root).flatMap (referencesAt s) ∧
    (findings s root).imports = (places s [] root).flatMap (importsAt s) ∧
    (∀ p, p ∈ places s [] root ↔ Reached s (.root root) p) ∧
    (places s [] root).Pairwise (fun p q => p.address < q.address) ∧
    (∀ p, ∀ r ∈ referencesAt s p, ∀ id, r.caller = some id ↔ IsCaller s p id) ∧
    ∀ p n prop, IsSelfAccess n prop →
      (∀ owner, IsOwner s p owner → owner ≠ "" →
        accessKey s n (contextAt s p) = owner ++ "." ++ s.text prop) ∧
      ((∀ owner, ¬IsOwner s p owner) → accessKey s n (contextAt s p) = s.text prop) := by
  have hvisit := visit_eq_foldl s root [] { errors := errorNote s root }
  obtain ⟨hreferences, himports⟩ :=
    foldl_recordAt s (places s [] root) { errors := errorNote s root }
  refine ⟨?_, ?_, fun q => mem_places_iff_reached (p := .root root),
    pairwise_address_places s (.root root), ?_, ?_⟩
  · exact (congrArg Notes.references hvisit).trans hreferences
  · exact (congrArg Notes.imports hvisit).trans himports
  · intro p r hr id
    rw [caller_of_mem_referencesAt hr]
    exact caller_contextAt_iff s p id
  · intro p n prop hself
    constructor
    · intro owner howner hne
      rw [hself.accessKey, (currentClass?_contextAt_iff s p owner).mpr howner]
      split
      next heq => exact absurd (Option.some.inj heq) hne
      next heq => cases heq
      next heq => rw [Option.some.inj heq]
    · intro hno
      rw [hself.accessKey, (currentClass?_contextAt_eq_none_iff s p).mpr hno]

/-- A named node. -/
def spanning (type : String) (start stop : Nat) (fields : List String) (children : List Node) :
    Node :=
  ⟨type, start, stop, true, false, fields, children⟩

def leaf (type : String) (start stop : Nat) (field : String) : Node :=
  spanning type start stop [field] []

/-- A member of the object itself, by offsets. -/
def selfMember (start stop : Nat) : Node :=
  spanning "member_expression" start stop ["function"]
    [leaf "this" start (start + 4) "object", leaf "property_identifier" (stop - 1) stop "property"]

def selfCall : Node := spanning "call_expression" 4 10 [] [selfMember 4 10]

def selfMethod : Node :=
  spanning "method_definition" 2 10 [] [leaf "property_identifier" 2 3 "name", selfCall]

def selfBody : Node := spanning "class_body" 2 10 ["body"] [selfMethod]

def selfClass : Node :=
  spanning "class_declaration" 0 10 [] [leaf "identifier" 0 1 "name", selfBody]

def selfSource : Source := .ofText "t.js" "javascript" "A m this y".toList

def selfBodyPlace : Place := (Place.root selfClass).child [leaf "identifier" 0 1 "name"] selfBody

def selfCallPlace : Place :=
  (selfBodyPlace.child [] selfMethod).child [leaf "property_identifier" 2 3 "name"] selfCall

/-- The call belongs to the method, and its callee to the class. -/
theorem findings_selfClass_eq_flatMap_places :
    IsSelfAccess (selfMember 4 10) (leaf "property_identifier" 9 10 "property") ∧
    IsOwner selfSource selfCallPlace "A" ∧
    accessKey selfSource (selfMember 4 10) (contextAt selfSource selfCallPlace) = "A.y" ∧
    (places selfSource [] selfClass).flatMap (referencesAt selfSource) =
      [{ key := "A.y", file := "t.js", line := 1, kind := .call
         caller := some "t.js:A.m:1" }] := by
  have hself : IsSelfAccess (selfMember 4 10) (leaf "property_identifier" 9 10 "property") :=
    ⟨by decide, ⟨_, rfl, by decide⟩, rfl⟩
  have howner : IsOwner selfSource selfCallPlace "A" := by
    refine ⟨[selfCallPlace, selfBodyPlace.child [] selfMethod], selfBodyPlace, _, rfl,
      by decide +kernel, ?_⟩
    simp only [List.forall_mem_cons, List.not_mem_nil, false_implies, implies_true, and_true]
    exact ⟨rfl, rfl⟩
  obtain ⟨hreferences, -, -, -, -, hkey⟩ := findings_eq_flatMap_places selfSource selfClass
  refine ⟨hself, howner, ?_, ?_⟩
  · rw [(hkey selfCallPlace _ _ hself).1 "A" howner (by decide)]
    decide +kernel
  · rw [← hreferences]
    decide +kernel

def namelessBody : Node :=
  spanning "class_body" 6 12 ["body"] [spanning "call_expression" 6 12 [] [selfMember 6 12]]

/-- A class whose name is empty. -/
def namelessClass : Node :=
  spanning "class_declaration" 6 12 [] [leaf "identifier" 6 6 "name", namelessBody]

/-- A call that is the body of a class. -/
def bodyCall : Node :=
  spanning "call_expression" 4 12 ["body"] [leaf "identifier" 4 5 "function",
    spanning "arguments" 6 12 ["arguments"] [namelessClass]]

def bodyClass : Node :=
  spanning "class_declaration" 2 12 [] [leaf "identifier" 2 3 "name", bodyCall]

def bodyFunction : Node :=
  spanning "function_declaration" 0 12 [] [leaf "identifier" 0 1 "name", bodyClass]

def bodySource : Source := .ofText "t.js" "javascript" "f A x this y".toList

def bodyClassPlace : Place :=
  (Place.root bodyFunction).child [leaf "identifier" 0 1 "name"] bodyClass

def bodyCallPlace : Place := bodyClassPlace.child [leaf "identifier" 2 3 "name"] bodyCall

def namelessBodyPlace : Place :=
  ((bodyCallPlace.child [leaf "identifier" 4 5 "function"]
    (spanning "arguments" 6 12 ["arguments"] [namelessClass])).child [] namelessClass).child
      [leaf "identifier" 6 6 "name"] namelessBody

/-- No class body stands between the first call and the function around it, and yet the call has no
caller. The second call is in the body of a class with an empty name, and yet no dot is in front of
its key. -/
theorem references_bodyFunction_lose_names :
    bodyCallPlace.lineage = [bodyCallPlace, bodyClassPlace, Place.root bodyFunction] ∧
    functionId? bodySource (Place.root bodyFunction) = some "t.js:f:1" ∧
    functionId? bodySource bodyClassPlace = none ∧ bodyOwner? bodySource bodyClassPlace = none ∧
    bodyOwner? bodySource namelessBodyPlace = some "" ∧
    (findings bodySource bodyFunction).references =
      [{ key := "x", file := "t.js", line := 1, kind := .call, caller := none },
        { key := "y", file := "t.js", line := 1, kind := .call, caller := none }] := by
  refine ⟨rfl, ?_, ?_, rfl, ?_, ?_⟩ <;> decide +kernel

end CodeAtlas.Tree
