import CodeAtlas.Proofs.Tree.References

/-!
# The first error of a tree

The first bad node is searched for with a stack, and nothing is looked for below a node
without errors. This finds what a scan of all nodes in preorder finds, whether they are
named or not. So a file has a note of a syntax error exactly if its tree has a bad node;
there is one such note, with the line of the first bad node, and it comes before all
other errors.
-/

namespace CodeAtlas.Tree

namespace Node

mutual

/-- All nodes of a tree, each before those below it. -/
def preorder : Node → List Node
  | n@⟨_, _, _, _, _, _, children⟩ => n :: preorderOf children

/-- All nodes of some trees, from left to right. -/
def preorderOf : List Node → List Node
  | [] => []
  | n :: ns => preorder n ++ preorderOf ns

end

theorem preorder_eq (n : Node) : n.preorder = n :: preorderOf n.children := by
  cases n
  rw [preorder]

theorem preorderOf_append (a b : List Node) :
    preorderOf (a ++ b) = preorderOf a ++ preorderOf b := by
  induction a with
  | nil => rfl
  | cons n a ih => rw [List.cons_append, preorderOf, preorderOf, ih, List.append_assoc]

theorem hasError_eq (n : Node) : n.hasError = (n.isBad || anyError n.children) := by
  cases n
  rw [hasError]

theorem anyError_eq_any {ns : List Node} (h : ∀ n ∈ ns, n.hasError = n.preorder.any isBad) :
    anyError ns = (preorderOf ns).any isBad := by
  induction ns with
  | nil => rfl
  | cons n ns ih =>
    rw [anyError, preorderOf, List.any_append, h n List.mem_cons_self,
      ih fun m hm => h m (List.mem_cons_of_mem n hm)]

/-- The flag of a node says whether some node of its tree is bad, however deep. -/
theorem hasError_eq_any (n : Node) : n.hasError = n.preorder.any isBad := by
  induction n using Node.induction with
  | step n ih => rw [hasError_eq, preorder_eq, List.any_cons, anyError_eq_any ih]

/-- A stack leads to the first bad node of its trees in preorder. Its top is replaced by its
children, or is left out with all that is below it, and neither changes which bad node is first. -/
theorem firstBad?_eq_find? (stack : List Node) :
    firstBad? stack = (preorderOf stack).find? isBad := by
  induction stack using firstBad?.induct with
  | case1 => rw [firstBad?, preorderOf, List.find?_nil]
  | case2 n rest hbad =>
    rw [firstBad?, if_pos hbad, preorderOf, preorder_eq, List.cons_append,
      List.find?_cons_of_pos hbad]
  | case3 n rest hbad herror ih =>
    rw [firstBad?, if_neg hbad, if_pos herror, ih, preorderOf, preorder_eq, List.cons_append,
      List.find?_cons_of_neg hbad, preorderOf_append]
  | case4 n rest hbad herror ih =>
    have hnone : n.preorder.find? isBad = none := by
      rw [hasError_eq_any, List.any_eq_true] at herror
      rw [List.find?_eq_none]
      exact fun m hm hm' => herror ⟨m, hm, hm'⟩
    rw [firstBad?, if_neg hbad, if_neg herror, ih, preorderOf, List.find?_append, hnone,
      Option.none_or]

theorem firstBad?_singleton (root : Node) : firstBad? [root] = root.preorder.find? isBad := by
  rw [firstBad?_eq_find?, preorderOf, preorderOf, List.append_nil]

end Node

/-- How the entry of a syntax error starts. -/
def syntaxMark : String := "syntax error near line "

/-- An entry of a syntax error, whatever follows the mark. -/
def IsSyntaxNote (e : String) : Prop := syntaxMark.toList <+: e.toList

def syntaxNote (s : Source) (bad : Node) : String := syntaxMark ++ toString (s.line bad)

theorem isSyntaxNote_syntaxNote (s : Source) (bad : Node) : IsSyntaxNote (syntaxNote s bad) :=
  ⟨(toString (s.line bad)).toList, String.toList_append.symm⟩

theorem errorNote_eq (s : Source) (root : Node) :
    errorNote s root = (root.preorder.find? Node.isBad).toList.map (syntaxNote s) := by
  rw [errorNote, Node.hasError_eq_any, Node.firstBad?_singleton]
  cases hfind : root.preorder.find? Node.isBad with
  | none => simp_all
  | some bad =>
    have hany : root.preorder.any Node.isBad = true :=
      List.any_eq_true.mpr ⟨bad, List.mem_of_find?_eq_some hfind, List.find?_some hfind⟩
    rw [if_pos hany]
    rfl

/-- The errors of a place: that of a class without a name. -/
def errorsAt (s : Source) (p : Place) : List String := (yieldOf s p (contextAt s p)).errors

theorem errors_foldl_recordAt (s : Source) (ps : List Place) (notes : Notes) :
    (ps.foldl (recordAt s) notes).errors = notes.errors ++ ps.flatMap (errorsAt s) := by
  induction ps generalizing notes with
  | nil => simp
  | cons p ps ih =>
    rw [List.foldl_cons, ih, List.flatMap_cons, ← List.append_assoc]
    rfl

theorem errors_findings (s : Source) (root : Node) :
    (findings s root).errors = errorNote s root ++ (places s [] root).flatMap (errorsAt s) :=
  (congrArg Notes.errors (visit_eq_foldl s root [] { errors := errorNote s root })).trans
    (errors_foldl_recordAt s (places s [] root) { errors := errorNote s root })

theorem eq_of_mem_errorsAt {s : Source} {p : Place} {e : String} (h : e ∈ errorsAt s p) :
    e = "line " ++ toString (s.line p.node) ++ ": class without a name skipped" := by
  unfold errorsAt yieldOf at h
  split at h
  next =>
    unfold functionYield at h
    split at h <;> cases h
  next =>
    unfold classYield at h
    split at h
    next => exact List.mem_singleton.mp h
    next => cases h
  next => cases h
  next => cases h
  next =>
    unfold callYield at h
    split at h <;> cases h
  next => cases h
  next => cases h
  next => cases h

theorem not_isSyntaxNote_of_mem_errorsAt {s : Source} {p : Place} {e : String}
    (h : e ∈ errorsAt s p) : ¬IsSyntaxNote e := by
  rintro ⟨rest, hrest⟩
  rw [eq_of_mem_errorsAt h] at hrest
  have hhead := congrArg List.head? hrest
  simp [syntaxMark] at hhead

/-- The search for the first bad node agrees with a scan of all nodes. A file has a note of a syntax
error exactly if some node is bad; nothing comes before it, so it has no second one, and it names
the line of the first bad node. -/
theorem syntax_note_first_and_at_first_bad (s : Source) (root : Node) :
    (root.hasError = true ↔ ∃ n ∈ root.preorder, n.isBad = true) ∧
    Node.firstBad? [root] = root.preorder.find? Node.isBad ∧
    ((∃ e ∈ (findings s root).errors, IsSyntaxNote e) ↔
      ∃ n ∈ root.preorder, n.isBad = true) ∧
    ∀ before e after, (findings s root).errors = before ++ e :: after → IsSyntaxNote e →
      before = [] ∧ (∀ f ∈ after, ¬IsSyntaxNote f) ∧
        ∃ bad, root.preorder.find? Node.isBad = some bad ∧ e = syntaxNote s bad := by
  have hothers : ∀ e ∈ (places s [] root).flatMap (errorsAt s), ¬IsSyntaxNote e := by
    intro e he
    obtain ⟨p, -, hp⟩ := List.mem_flatMap.mp he
    exact not_isSyntaxNote_of_mem_errorsAt hp
  refine ⟨by rw [Node.hasError_eq_any, List.any_eq_true], Node.firstBad?_singleton root, ?_⟩
  rw [errors_findings, errorNote_eq]
  cases hfind : root.preorder.find? Node.isBad with
  | none =>
    have hgood := List.find?_eq_none.mp hfind
    simp only [Option.toList_none, List.map_nil, List.nil_append]
    refine ⟨⟨fun ⟨e, he, hnote⟩ => absurd hnote (hothers e he), fun ⟨n, hn, hbad⟩ =>
      absurd hbad (hgood n hn)⟩, ?_⟩
    intro before e after hsplit hnote
    exact absurd hnote (hothers e (by simp [hsplit]))
  | some bad =>
    simp only [Option.toList_some, List.map_cons, List.map_nil, List.singleton_append]
    refine ⟨⟨fun _ => ⟨bad, List.mem_of_find?_eq_some hfind, List.find?_some hfind⟩, fun _ =>
      ⟨_, List.mem_cons_self, isSyntaxNote_syntaxNote s bad⟩⟩, ?_⟩
    intro before e after hsplit hnote
    cases before with
    | nil =>
      obtain ⟨rfl, rfl⟩ := List.cons.inj hsplit
      exact ⟨rfl, hothers, bad, rfl, rfl⟩
    | cons f before =>
      -- an entry behind the first one is an error of some place
      have hrest := (List.cons.inj hsplit).2
      exact absurd hnote (hothers e (by simp [hrest]))

/-- A class without a name, a statement that lacks a token, and a part that cannot be read, each on
a line of its own. -/
def brokenTree : Node :=
  spanning "program" 0 16 [] [spanning "class_declaration" 0 5 [] [],
    spanning "expression_statement" 6 10 [] [leaf "identifier" 6 8 "object",
      ⟨";", 8, 8, false, true, [], []⟩],
    spanning "ERROR" 12 15 [] []]

def brokenSource : Source := .ofText "t.js" "javascript" "class\nf(a)\n((((\n".toList

/-- The token that is missing comes first, and its line is named before the nameless class. -/
theorem syntax_note_brokenTree_at_missing_token :
    (findings brokenSource brokenTree).errors =
      ["syntax error near line 2", "line 1: class without a name skipped"] ∧
    IsSyntaxNote "syntax error near line 2" ∧
    ∃ bad, brokenTree.preorder.find? Node.isBad = some bad ∧
      "syntax error near line 2" = syntaxNote brokenSource bad := by
  have herrors : (findings brokenSource brokenTree).errors =
      ["syntax error near line 2", "line 1: class without a name skipped"] := by
    rw [errors_findings, errorNote_eq]
    decide +kernel
  have hnote : IsSyntaxNote "syntax error near line 2" := by
    rw [IsSyntaxNote]
    decide +kernel
  obtain ⟨-, -, -, hfirst⟩ := syntax_note_first_and_at_first_bad brokenSource brokenTree
  exact ⟨herrors, hnote, (hfirst [] _ _ herrors hnote).2.2⟩

end CodeAtlas.Tree
