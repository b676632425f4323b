import CodeAtlas.Proofs.Outcome
import CodeAtlas.Proofs.Value.Integers
import CodeAtlas.Server.Outline

/-!
# Outlines mirror their descriptions

A server describes a document by a list of entries, which have lists of their own. What
it says is read as a forest of the same form, in which each entry has its name, kind and
lines, and the name of the entry around it as its container. Items without a name are
passed over, with all that is in them. One entry of the wrong shape, however deep it is,
spoils the whole answer; and as long as no number is infinite, the shape is the only
reason for which an answer is refused. The refusal quotes what stands in the place of
the entry's name, so it is another one if that has a number with too many digits.
-/

namespace CodeAtlas

namespace Server.Outline

/-- The value under a key, if it counts as given. -/
def given? (fields : List (String × Value)) (key : String) : Option Value :=
  (fields.lookup key).filter Value.isGiven

/-- The range of an entry is its own one or else that of its location, and empty if none is
given. -/
inductive HasRange (fields : List (String × Value)) : Value → Prop
  | own {range : Value} (hown : given? fields "range" = some range) : HasRange fields range
  | located {location : List (String × Value)} (hown : given? fields "range" = none)
    (hlocation : given? fields "location" = some (.record location)) :
    HasRange fields ((given? location "range").getD (.record []))
  | missing (hown : given? fields "range" = none) (hlocation : given? fields "location" = none) :
    HasRange fields (.record [])

/-- A range has a line under a key: that of the position there, or the default where the position
or its line is missing. -/
def HasLine (range : Value) (key : String) (default line : Int) : Prop :=
  ∃ fields position, range = .record fields ∧
    (fields.lookup key).getD (.record []) = .record position ∧
    Value.Denotes ((position.lookup "line").getD (.integer default)) line

/-- An entry says what an outline without its children says. -/
structure Describes (fields : List (String × Value)) (container : Value) (o : Outline) : Prop where
  name : fields.lookup "name" = some (.text o.name)
  kind : Value.Denotes ((fields.lookup "kind").getD (.integer 0)) o.kind
  lines : ∃ range start stop, HasRange fields range ∧ HasLine range "start" 0 start ∧
    HasLine range "end" start stop ∧ o.line = start + 1 ∧ o.endLine = stop + 1
  detail : o.detail = (given? fields "detail").getD (.text "")
  container : o.container = (given? fields "containerName").getD container

theorem given?_eq_ite (fields : List (String × Value)) (key : String) :
    given? fields key = if ((fields.lookup key).getD .null).isGiven = true then
      some ((fields.lookup key).getD .null) else none := by
  unfold given?
  cases fields.lookup key with
  | none => simp [Value.isGiven]
  | some v => simp [Option.filter]

theorem firstGiven_eq (fields : List (String × Value)) (key : String) (default : Value) :
    firstGiven ((fields.lookup key).getD .null) default = (given? fields key).getD default := by
  rw [given?_eq_ite, firstGiven]
  split <;> rfl

theorem fieldOr_eq_ok_iff (v : Value) (key : String) (default w : Value) :
    fieldOr v key default = .ok w ↔
      ∃ fields, v = .record fields ∧ (fields.lookup key).getD default = w := by
  cases v <;> simp [fieldOr]

theorem number_eq_ok_iff (v : Value) (n : Int) : number v = .ok n ↔ Value.Denotes v n := by
  rw [← Value.toInteger_eq_ok_iff, number]
  cases v.toInteger <;> simp

theorem lineOf_eq_ok_iff (range : Value) (key : String) (default line : Int) :
    lineOf range key (.integer default) = .ok line ↔ HasLine range key default line := by
  simp only [lineOf, bind_eq_ok_iff, fieldOr_eq_ok_iff, number_eq_ok_iff, HasLine]
  constructor
  · rintro ⟨position, ⟨fields, hrange, hposition⟩, value, ⟨inner, rfl, rfl⟩, hline⟩
    exact ⟨fields, inner, hrange, hposition, hline⟩
  · rintro ⟨fields, inner, hrange, hposition, hline⟩
    exact ⟨_, ⟨fields, hrange, hposition⟩, _, ⟨inner, rfl, rfl⟩, hline⟩

theorem range_of_own {fields : List (String × Value)} {r : Value}
    (h : given? fields "range" = some r) : range fields = .ok r := by
  rw [given?_eq_ite] at h
  split at h
  next hown =>
    rw [range, if_pos hown, Option.some.inj h]
  next => cases h

theorem range_of_not_own {fields : List (String × Value)} (h : given? fields "range" = none) :
    range fields =
      match (given? fields "location").getD (.record []) with
      | .record location => .ok ((given? location "range").getD (.record []))
      | v => .error (.noFields v.kindName) := by
  rw [given?_eq_ite] at h
  split at h
  next => cases h
  next hown =>
    rw [range, if_neg hown]
    simp only [firstGiven_eq]
    cases (given? fields "location").getD (.record []) with
    | record location => simp [fieldOr, bind, Except.bind, firstGiven_eq]
    | null | boolean | integer | real | text | list => rfl

theorem range_eq_ok_iff (fields : List (String × Value)) (r : Value) :
    range fields = .ok r ↔ HasRange fields r := by
  constructor
  · intro h
    cases hown : given? fields "range" with
    | some own =>
      rw [range_of_own hown, Except.ok.injEq] at h
      exact h ▸ .own hown
    | none =>
      rw [range_of_not_own hown] at h
      cases hlocation : given? fields "location" with
      | none =>
        rw [hlocation] at h
        cases h
        exact .missing hown hlocation
      | some location =>
        rw [hlocation] at h
        cases location with
        | record inner =>
          cases h
          exact .located hown hlocation
        | null | boolean | integer | real | text | list => cases h
  · intro h
    cases h with
    | own hown => exact range_of_own hown
    | located hown hlocation => rw [range_of_not_own hown, hlocation]; rfl
    | missing hown hlocation => rw [range_of_not_own hown, hlocation]; rfl

/-- An entry is read exactly if it describes an outline, and as this one. -/
theorem entry_eq_ok_iff {fields : List (String × Value)} {name : Value}
    (hname : fields.lookup "name" = some name) (container : Value) (o : Outline) :
    entry fields name container = .ok o ↔ Describes fields container o ∧ o.children = [] := by
  constructor
  · intro h
    cases name with
    | text n =>
      simp only [entry, bind_eq_ok_iff, range_eq_ok_iff, lineOf_eq_ok_iff, number_eq_ok_iff,
        firstGiven_eq] at h
      obtain ⟨r, hrange, start, hstart, stop, hstop, kind, hkind, ho⟩ := h
      cases ho
      exact ⟨⟨hname, hkind, ⟨r, start, stop, hrange, hstart, hstop, rfl, rfl⟩, rfl, rfl⟩, rfl⟩
    | null | boolean | integer | real | list | record => cases h
  · rintro ⟨⟨hn, hkind, ⟨r, start, stop, hrange, hstart, hstop, hline, hend⟩, hdetail, hcontainer⟩,
      hchildren⟩
    obtain rfl : name = .text o.name := Option.some.inj (hname.symm.trans hn)
    simp only [entry, bind_eq_ok_iff, range_eq_ok_iff, lineOf_eq_ok_iff, number_eq_ok_iff,
      firstGiven_eq]
    refine ⟨r, hrange, start, hstart, stop, hstop, o.kind, hkind, ?_⟩
    cases o
    simp_all

theorem number_ne_unbounded {v : Value} (hv : v.isFinite = true) :
    number v ≠ .error (.number .unbounded) := by
  cases v with
  | real x =>
    cases x with
    | finite => simp [number, Value.toInteger]
    | infinite | notANumber => simp [Value.isFinite] at hv
  | text s =>
    simp only [number, Value.toInteger]
    cases Text.readInteger s.toList with
    | ok n => simp
    | error e => cases e <;> simp
  | null | boolean | integer | list | record => simp [number, Value.toInteger]

theorem lineOf_ne_unbounded {range default : Value} (hrange : range.isFinite = true)
    (hdefault : default.isFinite = true) (key : String) :
    lineOf range key default ≠ .error (.number .unbounded) := by
  intro h
  cases range with
  | record fields =>
    have hposition := Value.isFinite_getD_lookup hrange key (d := .record []) rfl
    simp only [lineOf, fieldOr, bind, Except.bind] at h
    cases hp : (fields.lookup key).getD (.record []) with
    | record position =>
      rw [hp] at h hposition
      exact number_ne_unbounded (Value.isFinite_getD_lookup hposition "line" hdefault) h
    | null | boolean | integer | real | text | list =>
      rw [hp] at h
      cases h
  | null | boolean | integer | real | text | list => cases h

theorem range_ne_unbounded (fields : List (String × Value)) :
    range fields ≠ .error (.number .unbounded) := by
  intro h
  cases hown : given? fields "range" with
  | some own =>
    rw [range_of_own hown] at h
    cases h
  | none =>
    rw [range_of_not_own hown] at h
    split at h <;> cases h

theorem HasRange.isFinite {fields : List (String × Value)} {r : Value} (h : HasRange fields r)
    (hfields : Value.fieldsFinite fields = true) : r.isFinite = true := by
  have hgiven : ∀ {fields : List (String × Value)}, Value.fieldsFinite fields = true →
      ∀ {key v}, given? fields key = some v → v.isFinite = true := by
    intro fields hfields key v hv
    exact Value.isFinite_of_lookup hfields (Option.filter_eq_some_iff.mp hv).1
  cases h with
  | own hown => exact hgiven hfields hown
  | @located location hown hlocation =>
    have hinner : Value.fieldsFinite location = true := hgiven hfields hlocation
    cases hr : given? location "range" with
    | none => rfl
    | some r => exact hgiven hinner hr
  | missing => rfl

/-- Without infinite numbers, no entry has a position beyond all bounds. -/
theorem entry_ne_unbounded {fields : List (String × Value)}
    (hfields : Value.fieldsFinite fields = true) (name container : Value) :
    entry fields name container ≠ .error (.number .unbounded) := by
  intro h
  cases name with
  | text n =>
    simp only [entry, bind_eq_error_iff, range_eq_ok_iff, reduceCtorEq, and_false, exists_false,
      or_false] at h
    obtain h | ⟨r, hr, h | ⟨start, -, h | ⟨stop, -, h⟩⟩⟩ := h
    · exact range_ne_unbounded fields h
    · exact lineOf_ne_unbounded (hr.isFinite hfields) rfl _ h
    · exact lineOf_ne_unbounded (hr.isFinite hfields) rfl _ h
    · exact number_ne_unbounded (Value.isFinite_getD_lookup hfields "kind" rfl) h
  | null | boolean | integer | real | list | record => cases h

/-- An outline mirrors what a value describes: null and the empty list describe nothing, items
that are no records with a name are passed over, and the others come in their order, each with its
children, which have its name as their container. -/
inductive Mirrors : (container v : Value) → List Outline → Prop
  | null (container : Value) : Mirrors container .null []
  | nil (container : Value) : Mirrors container (.list []) []
  | passed {container item : Value} {items : List Value} {forest : List Outline}
    (hitem : item.field? "name" = none) (hrest : Mirrors container (.list items) forest) :
    Mirrors container (.list (item :: items)) forest
  | entry {container : Value} {fields : List (String × Value)} {items : List Value} {o : Outline}
    {forest : List Outline} (ho : Describes fields container o)
    (hchildren : Mirrors (.text o.name) ((fields.lookup "children").getD .null) o.children)
    (hrest : Mirrors container (.list items) forest) :
    Mirrors container (.list (.record fields :: items)) (o :: forest)

mutual

/-- The entries that a value describes, in preorder: records with a name. -/
def described : Value → List (List (String × Value))
  | .list items => describedItems items
  | _ => []

def describedItems : List Value → List (List (String × Value))
  | [] => []
  | .record fields :: rest =>
    if (fields.lookup "name").isSome then
      fields :: (describedBelow fields ++ describedItems rest)
    else describedItems rest
  | _ :: rest => describedItems rest

/-- The entries among an entry's children. -/
def describedBelow : List (String × Value) → List (List (String × Value))
  | [] => []
  | (key, v) :: rest => if key = "children" then described v else describedBelow rest

end

/-- The names of a forest in preorder. -/
def names : List Outline → List String
  | [] => []
  | ⟨name, _, _, _, _, _, children⟩ :: rest => name :: (names children ++ names rest)

/-- A search for the children among the fields is a lookup. -/
theorem eq_of_children_search {β : Type} {f : List (String × Value) → β} {g : Value → β}
    (hnil : f [] = g .null)
    (hcons : ∀ key v rest, f ((key, v) :: rest) = if key = "children" then g v else f rest)
    (fields : List (String × Value)) : f fields = g ((fields.lookup "children").getD .null) := by
  induction fields with
  | nil => exact hnil
  | cons field fields ih =>
    obtain ⟨key, v⟩ := field
    rw [hcons, Table.lookup_cons_ite, ih]
    by_cases hkey : key = "children"
    · simp [hkey]
    · simp [hkey, Ne.symm hkey]

theorem describedBelow_eq (fields : List (String × Value)) :
    describedBelow fields = described ((fields.lookup "children").getD .null) :=
  eq_of_children_search rfl (fun _ _ _ => rfl) fields

theorem ofChildren_eq (container : Value) (fields : List (String × Value)) :
    ofChildren container fields = ofValue container ((fields.lookup "children").getD .null) :=
  eq_of_children_search rfl (fun _ _ _ => rfl) fields

theorem sizeOf_getD_lookup_lt (fields : List (String × Value)) (key : String) :
    sizeOf ((fields.lookup key).getD .null) < sizeOf (Value.record fields) := by
  cases hv : fields.lookup key with
  | none =>
    have hpos : 0 < sizeOf fields := by cases fields <;> simp
    simpa using hpos
  | some v =>
    obtain ⟨front, back, hsplit, -⟩ := List.lookup_eq_some_iff.mp hv
    have hmem : (key, v) ∈ fields := by simp [hsplit]
    have hlt := List.sizeOf_lt_of_mem hmem
    simp only [Prod.mk.sizeOf_spec] at hlt
    simp only [Option.getD_some, Value.record.sizeOf_spec]
    omega

/-- What holds of a list if it holds of the children of its first item and of the rest, and of
everything that is no list, holds of every value. -/
theorem description_induction {P : Value → Prop} (other : ∀ v, (∀ items, v ≠ .list items) → P v)
    (nil : P (.list []))
    (cons : ∀ item items, (∀ fields, item = .record fields →
      P ((fields.lookup "children").getD .null)) → P (.list items) → P (.list (item :: items)))
    (v : Value) : P v :=
  match v with
  | .list [] => nil
  | .list (item :: items) =>
    cons item items (fun fields _hitem => description_induction other nil cons _)
      (description_induction other nil cons (.list items))
  | .null => other _ (by simp)
  | .boolean _ => other _ (by simp)
  | .integer _ => other _ (by simp)
  | .real _ => other _ (by simp)
  | .text _ => other _ (by simp)
  | .record _ => other _ (by simp)
termination_by sizeOf v
decreasing_by
  -- the children are found by a lookup, so they are no direct part of the list
  · have hlt := sizeOf_getD_lookup_lt fields "children"
    subst _hitem
    simp only [Value.list.sizeOf_spec, List.cons.sizeOf_spec]
    omega
  · simp only [Value.list.sizeOf_spec, List.cons.sizeOf_spec]
    omega

theorem exists_fields_of_field? {item name : Value} {key : String}
    (h : item.field? key = some name) :
    ∃ fields, item = .record fields ∧ fields.lookup key = some name := by
  cases item with
  | record fields => exact ⟨fields, rfl, h⟩
  | null | boolean | integer | real | text | list => cases h

theorem ofValue_passed {item : Value} (hitem : item.field? "name" = none) (container : Value)
    (items : List Value) :
    ofValue container (.list (item :: items)) = ofValue container (.list items) := by
  cases item with
  | record fields =>
    have hname : fields.lookup "name" = none := hitem
    simp [ofValue, ofItems, hname]
  | null | boolean | integer | real | text | list => rfl

theorem ofValue_of_entry_error {fields : List (String × Value)} {name container : Value}
    {fault : EntryFault} (hname : fields.lookup "name" = some name)
    (hentry : entry fields name container = .error fault) (items : List Value) :
    ofValue container (.list (.record fields :: items)) = .error (blame name fault) := by
  simp [ofValue, ofItems, hname, hentry]

theorem ofValue_of_entry_ok {fields : List (String × Value)} {name container : Value}
    {e : Outline} (hname : fields.lookup "name" = some name)
    (hentry : entry fields name container = .ok e) (items : List Value) :
    ofValue container (.list (.record fields :: items)) =
      (do
        let children ← ofValue (.text e.name) ((fields.lookup "children").getD .null)
        let rest ← ofValue container (.list items)
        .ok ({ e with children } :: rest)) := by
  simp only [ofValue, ofItems, hname, hentry, ofChildren_eq]
  cases ofValue (.text e.name) ((fields.lookup "children").getD .null) with
  | error => rfl
  | ok children => cases ofItems container items <;> rfl

theorem Describes.withChildren {fields : List (String × Value)} {container : Value} {o : Outline}
    (h : Describes fields container o) (children : List Outline) :
    Describes fields container { o with children } :=
  ⟨h.name, h.kind, h.lines, h.detail, h.container⟩

theorem mirrors_passed_iff {item : Value} (hitem : item.field? "name" = none) (container : Value)
    (items : List Value) (forest : List Outline) :
    Mirrors container (.list (item :: items)) forest ↔ Mirrors container (.list items) forest := by
  refine ⟨?_, .passed hitem⟩
  intro h
  cases h with
  | passed _ hrest => exact hrest
  | entry ho => cases hitem.symm.trans ho.name

theorem exists_of_mirrors_entry {fields : List (String × Value)} {name container : Value}
    (hname : fields.lookup "name" = some name) {items : List Value} {forest : List Outline}
    (h : Mirrors container (.list (.record fields :: items)) forest) :
    ∃ o rest, forest = o :: rest ∧ Describes fields container o ∧
      Mirrors (.text o.name) ((fields.lookup "children").getD .null) o.children ∧
      Mirrors container (.list items) rest := by
  cases h with
  | passed hitem => cases hname.symm.trans hitem
  | entry ho hchildren hrest => exact ⟨_, _, rfl, ho, hchildren, hrest⟩

/-- A value is read exactly if some outline mirrors it, and as this one. -/
theorem ofValue_eq_ok_iff (container v : Value) (forest : List Outline) :
    ofValue container v = .ok forest ↔ Mirrors container v forest := by
  induction v using description_induction generalizing container forest with
  | other v hv =>
    constructor
    · intro h
      cases v with
      | null =>
        cases h
        exact .null container
      | list items => exact absurd rfl (hv items)
      | boolean | integer | real | text | record => cases h
    · intro h
      cases h with
      | null => rfl
      | nil | passed | entry => exact absurd rfl (hv _)
  | nil =>
    constructor
    · intro h
      cases h
      exact .nil container
    · intro h
      cases h
      rfl
  | cons item items ihchildren ihrest =>
    cases hname : item.field? "name" with
    | none => rw [ofValue_passed hname, mirrors_passed_iff hname, ihrest]
    | some name =>
      obtain ⟨fields, rfl, hname⟩ := exists_fields_of_field? hname
      constructor
      · intro h
        cases hentry : entry fields name container with
        | error fault =>
          rw [ofValue_of_entry_error hname hentry] at h
          cases h
        | ok e =>
          -- the entry itself is read, then its children, then what follows it
          rw [ofValue_of_entry_ok hname hentry, bind_eq_ok_iff] at h
          obtain ⟨children, hchildren, h⟩ := h
          obtain ⟨rest, hrest, h⟩ := bind_eq_ok_iff.mp h
          cases h
          obtain ⟨he, -⟩ := (entry_eq_ok_iff hname container e).mp hentry
          exact .entry (he.withChildren children) ((ihchildren fields rfl _ _).mp hchildren)
            ((ihrest _ _).mp hrest)
      · intro h
        obtain ⟨o, rest, rfl, ho, hchildren, hrest⟩ := exists_of_mirrors_entry hname h
        have hentry : entry fields name container = .ok { o with children := [] } :=
          (entry_eq_ok_iff hname container _).mpr ⟨ho.withChildren [], rfl⟩
        rw [ofValue_of_entry_ok hname hentry, bind_eq_ok_iff]
        refine ⟨o.children, (ihchildren fields rfl _ _).mpr hchildren, ?_⟩
        exact bind_eq_ok_iff.mpr ⟨rest, (ihrest _ _).mpr hrest, by cases o; rfl⟩

theorem names_cons (o : Outline) (rest : List Outline) :
    names (o :: rest) = o.name :: (names o.children ++ names rest) := by
  cases o
  rw [names]

theorem described_passed {item : Value} (hitem : item.field? "name" = none) (items : List Value) :
    described (.list (item :: items)) = described (.list items) := by
  cases item with
  | record fields =>
    have hname : fields.lookup "name" = none := hitem
    simp [described, describedItems, hname]
  | null | boolean | integer | real | text | list => rfl

theorem described_entry {fields : List (String × Value)} {name : Value}
    (hname : fields.lookup "name" = some name) (items : List Value) :
    described (.list (.record fields :: items)) =
      fields :: (described ((fields.lookup "children").getD .null) ++ described (.list items)) := by
  simp [described, describedItems, hname, describedBelow_eq]

/-- The names of an outline are those of the entries that it mirrors. -/
theorem Mirrors.names_eq {container v : Value} {forest : List Outline}
    (h : Mirrors container v forest) :
    (names forest).map Value.text =
      (described v).map fun fields => (fields.lookup "name").getD .null := by
  induction h with
  | null | nil =>
    rw [names]
    rfl
  | passed hitem _ ih => rw [described_passed hitem, ih]
  | entry ho _ _ ihchildren ihrest =>
    rw [names_cons, described_entry ho.name]
    simp [ho.name, ihchildren, ihrest]

/-- A value can hold entries: it is null or a list. -/
def IsListing (v : Value) : Prop := v = .null ∨ ∃ items, v = .list items

/-- An entry has fields of the right shape, and can have children. -/
def WellShaped (fields : List (String × Value)) : Prop :=
  (∃ o, Describes fields .null o) ∧ IsListing ((fields.lookup "children").getD .null)

theorem Describes.inContainer {fields : List (String × Value)} {c : Value} {o : Outline}
    (h : Describes fields c o) (container : Value) :
    Describes fields container
      { o with container := (given? fields "containerName").getD container } :=
  ⟨h.name, h.kind, h.lines, h.detail, rfl⟩

theorem exists_mirrors_iff (container v : Value) :
    (∃ forest, Mirrors container v forest) ↔
      IsListing v ∧ ∀ fields ∈ described v, WellShaped fields := by
  induction v using description_induction generalizing container with
  | other v hv =>
    constructor
    · rintro ⟨forest, h⟩
      cases h with
      | null => exact ⟨.inl rfl, List.forall_mem_nil _⟩
      | nil | passed | entry => exact absurd rfl (hv _)
    · rintro ⟨rfl | ⟨items, rfl⟩, -⟩
      · exact ⟨[], .null container⟩
      · exact absurd rfl (hv items)
  | nil =>
    exact ⟨fun _ => ⟨.inr ⟨[], rfl⟩, List.forall_mem_nil _⟩, fun _ => ⟨[], .nil container⟩⟩
  | cons item items ihchildren ihrest =>
    have hlisting : ∀ items, IsListing (.list items) := fun items => .inr ⟨items, rfl⟩
    cases hname : item.field? "name" with
    | none =>
      simp only [mirrors_passed_iff hname, described_passed hname, ihrest container, hlisting]
    | some name =>
      obtain ⟨fields, rfl, hname⟩ := exists_fields_of_field? hname
      simp only [described_entry hname, List.forall_mem_cons, List.forall_mem_append, hlisting,
        true_and]
      constructor
      · rintro ⟨forest, h⟩
        obtain ⟨o, rest, rfl, ho, hchildren, hrest⟩ := exists_of_mirrors_entry hname h
        obtain ⟨hbelow, hinner⟩ := (ihchildren fields rfl _).mp ⟨_, hchildren⟩
        obtain ⟨-, hothers⟩ := (ihrest container).mp ⟨_, hrest⟩
        exact ⟨⟨⟨_, ho.inContainer .null⟩, hbelow⟩, hinner, hothers⟩
      · rintro ⟨⟨⟨o, ho⟩, hbelow⟩, hinner, hothers⟩
        obtain ⟨children, hchildren⟩ :=
          (ihchildren fields rfl (.text o.name)).mpr ⟨hbelow, hinner⟩
        obtain ⟨rest, hrest⟩ := (ihrest container).mpr ⟨hlisting items, hothers⟩
        exact ⟨_, .entry ((ho.inContainer container).withChildren children) hchildren hrest⟩

/-- An answer is refused for a value in the place of a list, or for an entry that is not read. -/
theorem error_cases {container v : Value} {e : OutlineError} (hv : v.isFinite = true)
    (h : ofValue container v = .error e) :
    (∃ kind, e = .notAList kind) ∨
    ∃ fields ∈ described v, Value.fieldsFinite fields = true ∧ ∃ name container fault,
      fields.lookup "name" = some name ∧ entry fields name container = .error fault ∧
      e = blame name fault := by
  induction v using description_induction generalizing container with
  | other v hother =>
    left
    cases v with
    | null => cases h
    | list items => exact absurd rfl (hother items)
    | boolean | integer | real | text | record =>
      cases h
      exact ⟨_, rfl⟩
  | nil => cases h
  | cons item items ihchildren ihrest =>
    have hfinite : item.isFinite = true ∧ (Value.list items).isFinite = true := by
      simpa [Value.isFinite, Value.allFinite] using hv
    cases hname : item.field? "name" with
    | none =>
      rw [ofValue_passed hname] at h
      rw [described_passed hname]
      exact ihrest hfinite.2 h
    | some name =>
      obtain ⟨fields, rfl, hname⟩ := exists_fields_of_field? hname
      have hfields : Value.fieldsFinite fields = true := hfinite.1
      simp only [described_entry hname, List.mem_cons, List.mem_append, or_and_right, exists_or,
        exists_eq_left]
      cases hentry : entry fields name container with
      | error fault =>
        rw [ofValue_of_entry_error hname hentry, Except.error.injEq] at h
        exact .inr (.inl ⟨hfields, name, container, fault, hname, hentry, h.symm⟩)
      | ok o =>
        rw [ofValue_of_entry_ok hname hentry, bind_eq_error_iff] at h
        obtain h | ⟨children, -, h⟩ := h
        · have hchildren := Value.isFinite_getD_lookup hfields "children" (d := .null) rfl
          exact (ihchildren fields rfl hchildren h).imp_right fun h => .inr (.inl h)
        · obtain h | ⟨rest, -, h⟩ := bind_eq_error_iff.mp h
          · exact (ihrest hfinite.2 h).imp_right fun h => .inr (.inr h)
          · cases h

/-- An answer without infinite numbers is read as the one outline that mirrors it, with the names of
its entries in their order, or it is refused for its shape. It is refused exactly if it is neither
null nor a list, or if any of its entries, however deep, is malformed. The refusal says which entry
that is, unless the entry has a number in the place of its name that is too long to be quoted. -/
theorem outline_mirrors_or_is_refused (container v : Value) (hv : v.isFinite = true) :
    (∀ forest, ofValue container v = .ok forest ↔ Mirrors container v forest) ∧
    (∀ forest, ofValue container v = .ok forest → (names forest).map Value.text =
      (described v).map fun fields => (fields.lookup "name").getD .null) ∧
    ((∃ e, ofValue container v = .error e) ↔
      ¬IsListing v ∨ ∃ fields ∈ described v, ¬WellShaped fields) ∧
    ∀ e, ofValue container v = .error e →
      (∃ kind, e = .notAList kind) ∨ (∃ name fault, e = .malformed name fault) ∨
      e = .longNumber ∧ ∃ fields ∈ described v, ∃ name, fields.lookup "name" = some name ∧
        name.isWritable = false := by
  refine ⟨ofValue_eq_ok_iff container v, ?_, ?_, ?_⟩
  · intro forest h
    exact ((ofValue_eq_ok_iff container v forest).mp h).names_eq
  · have hshape := exists_mirrors_iff container v
    simp only [← ofValue_eq_ok_iff] at hshape
    have hrefused : (∃ e, ofValue container v = .error e) ↔
        ¬∃ forest, ofValue container v = .ok forest := by
      cases ofValue container v <;> simp
    rw [hrefused, hshape]
    simp only [not_and_or, not_forall, exists_prop]
  · intro e h
    obtain h | ⟨fields, hmem, hfinite, name, c, fault, hname, hentry, rfl⟩ := error_cases hv h
    · exact .inl h
    right
    have hblame : blame name fault =
        if name.isWritable then .malformed name fault else .longNumber := by
      unfold blame
      split
      · exact absurd hentry (entry_ne_unbounded hfinite name c)
      · rfl
    rw [hblame]
    cases hwritable : name.isWritable with
    | true => exact .inl ⟨name, fault, rfl⟩
    | false => exact .inr ⟨rfl, fields, hmem, name, hname, hwritable⟩

/-- A class with a method, in either form of entries, beside items without a name. Lines are given
as numbers, one with a fraction, and as texts. -/
def classDescription : Value :=
  .list [.text "junk", .record [("kind", .integer 12)],
    .record [("name", .text "Widget"), ("kind", .integer 5),
      ("range", .record [("start", .record [("line", .integer 0)]),
        ("end", .record [("line", .real (.finite false 19 (-1)))])]),
      ("children", .list [.record [("name", .text "render"), ("kind", .text " 6 "),
        ("containerName", .text ""),
        ("location", .record [("range", .record [("start", .record [("line", .integer 2)])])])]])]]

def classOutline : List Outline :=
  [⟨"Widget", 5, 1, 10, .text "", .null, [⟨"render", 6, 3, 3, .text "", .text "Widget", []⟩]⟩]

theorem outline_mirrors_classDescription :
    classDescription.isFinite = true ∧ Mirrors .null classDescription classOutline ∧
    (names classOutline).map Value.text = [.text "Widget", .text "render"] := by
  have hfinite : classDescription.isFinite = true := by decide
  have hread : ofValue .null classDescription = .ok classOutline := by rfl
  obtain ⟨hmirrors, hnames, -⟩ := outline_mirrors_or_is_refused .null classDescription hfinite
  exact ⟨hfinite, (hmirrors _).mp hread, hnames _ hread⟩

/-- An item without a name, and an entry with one in it. -/
def hidingDescription : Value :=
  .list [.record [("children", .list [.record [("name", .text "a")]])]]

/-- An entry with a number in the place of its name. -/
def numberNamed (n : Int) : Value := .list [.record [("name", .integer n)]]

theorem ofValue_numberNamed {n : Int} (h : Text.isWritable n = false) :
    ofValue .null (numberNamed n) = .error .longNumber := by
  have hname : Value.isWritable (.integer n) = false := h
  rw [numberNamed, ofValue_of_entry_error rfl rfl, blame, hname]
  · rfl
  · intro hfault
    cases hfault

theorem isWritable_pow_digitLimit : Text.isWritable (Nat.pow 10 Text.digitLimit) = false := by
  rw [Text.isWritable, Int.natAbs_natCast]
  exact decide_eq_false (Nat.lt_irrefl _)

/-- The entry in an item without a name is passed over with the item, and a number with one digit
too many is not quoted. -/
theorem outline_misses_hidden_and_long_names :
    (∃ forest, ofValue .null hidingDescription = .ok forest ∧ names forest ≠ ["a"]) ∧
    ofValue .null (numberNamed (Nat.pow 10 Text.digitLimit)) = .error .longNumber :=
  ⟨⟨[], rfl, by simp [names]⟩, ofValue_numberNamed isWritable_pow_digitLimit⟩

end Server.Outline

end CodeAtlas
