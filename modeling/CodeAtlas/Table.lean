/-!
# Tables

A table holds values under distinct keys, in the order in which the keys were
first stored. Storing a value under a key that is there keeps the key's place.
-/

namespace CodeAtlas

structure Table (α : Type) where
  entries : List (String × α)
  nodup_keys : (entries.map Prod.fst).Nodup
  deriving DecidableEq

namespace Table

variable {α β : Type}

def empty : Table α := ⟨[], List.nodup_nil⟩

instance : EmptyCollection (Table α) := ⟨empty⟩

instance : Inhabited (Table α) := ⟨empty⟩

def keys (t : Table α) : List String := t.entries.map Prod.fst

def values (t : Table α) : List α := t.entries.map Prod.snd

def size (t : Table α) : Nat := t.entries.length

def isEmpty (t : Table α) : Bool := t.entries.isEmpty

def get? (t : Table α) (key : String) : Option α := t.entries.lookup key

def contains (t : Table α) (key : String) : Bool := t.keys.contains key

/-- Puts a pair into a list of pairs: in the key's place, or at the end. -/
def putPair (key : String) (v : α) : List (String × α) → List (String × α)
  | [] => [(key, v)]
  | (k, w) :: rest => if k = key then (k, v) :: rest else (k, w) :: putPair key v rest

theorem keys_putPair (key : String) (v : α) (l : List (String × α)) :
    (putPair key v l).map Prod.fst =
      if key ∈ l.map Prod.fst then l.map Prod.fst else l.map Prod.fst ++ [key] := by
  induction l with
  | nil => simp [putPair]
  | cons p rest ih =>
    obtain ⟨k, w⟩ := p
    by_cases h : k = key
    · simp [putPair, h]
    · have h' : key ≠ k := fun e => h e.symm
      simp only [putPair, h, if_false, List.map_cons, ih, List.mem_cons, h', false_or]
      split <;> simp

theorem nodup_keys_putPair (key : String) (v : α) {l : List (String × α)}
    (h : (l.map Prod.fst).Nodup) : ((putPair key v l).map Prod.fst).Nodup := by
  rw [keys_putPair]
  split
  · exact h
  · next hk => simpa [List.nodup_append, h] using fun a b hb e => hk (by simpa using ⟨b, e ▸ hb⟩)

def insert (t : Table α) (key : String) (v : α) : Table α :=
  ⟨putPair key v t.entries, nodup_keys_putPair key v t.nodup_keys⟩

def erase (t : Table α) (key : String) : Table α :=
  ⟨t.entries.filter fun p => p.1 != key,
    t.nodup_keys.sublist (List.filter_sublist.map _)⟩

/-- The value of every key replaced by a function of key and value. -/
def mapValues (f : String → α → β) (t : Table α) : Table β :=
  ⟨t.entries.map fun p => (p.1, f p.1 p.2), by simpa [Function.comp_def] using t.nodup_keys⟩

/-- Stores pairs one after another. -/
def insertAll (t : Table α) (pairs : List (String × α)) : Table α :=
  pairs.foldl (fun t p => t.insert p.1 p.2) t

def ofPairs (pairs : List (String × α)) : Table α := empty.insertAll pairs

/-- Appends to the list under a key, which is empty when the key is new. -/
def push (t : Table (List α)) (key : String) (v : α) : Table (List α) :=
  t.insert key ((t.get? key).getD [] ++ [v])

/-- Appends to the list under a key unless it is there; a new key gets a list of its own. -/
def pushNew [BEq α] (t : Table (List α)) (key : String) (v : α) : Table (List α) :=
  let held := (t.get? key).getD []
  t.insert key (if held.contains v then held else held ++ [v])

/-- The entries in ascending order of their keys. -/
def sorted (t : Table α) : List (String × α) :=
  t.entries.mergeSort fun p q => decide (p.1 ≤ q.1)

@[simp] theorem keys_insert (t : Table α) (key : String) (v : α) :
    (t.insert key v).keys = if key ∈ t.keys then t.keys else t.keys ++ [key] :=
  keys_putPair key v t.entries

end Table

end CodeAtlas
