/-!
# Maps kept in key order

A finite map as its list of entries with strictly increasing keys. Inserting at a key that is
present replaces the value, so of several insertions at one key the last is the one that is found.
Reading the entries gives them in the order of the keys, whatever the order of insertion.
-/

namespace OperatorModes

variable {κ α : Type} [LT κ] [DecidableLT κ] [DecidableEq κ]

/-- Puts an entry into a list that is increasing by key; an entry at the same key is replaced. -/
def insertEntry (k : κ) (x : α) : List (κ × α) → List (κ × α)
  | [] => [(k, x)]
  | (j, y) :: rest =>
    if k < j then (k, x) :: (j, y) :: rest
    else if k = j then (k, x) :: rest
    else (j, y) :: insertEntry k x rest

/-- The value of the first entry at a key. -/
def lookupEntry (k : κ) : List (κ × α) → Option α
  | [] => none
  | (j, y) :: rest => if k = j then some y else lookupEntry k rest

theorem fst_mem_insertEntry {k : κ} {x : α} {e : κ × α} {l : List (κ × α)} :
    e ∈ insertEntry k x l → e.1 = k ∨ e ∈ l := by
  induction l with
  | nil => simp only [insertEntry]; grind
  | cons head rest ih =>
    obtain ⟨j, y⟩ := head
    simp only [insertEntry]
    split
    · grind
    · split <;> grind

theorem lookupEntry_insertEntry (k j : κ) (x : α) (l : List (κ × α)) :
    lookupEntry j (insertEntry k x l) = if j = k then some x else lookupEntry j l := by
  induction l with
  | nil => simp [insertEntry, lookupEntry]
  | cons head rest ih =>
    obtain ⟨i, y⟩ := head
    simp only [insertEntry]
    split
    · simp [lookupEntry]
    · split
      · subst_vars; simp only [lookupEntry]; split <;> rfl
      · simp only [lookupEntry, ih]; grind

/-- A finite map with its entries in key order. -/
structure SortedMap (κ α : Type) [LT κ] where
  /-- The entries, keys strictly increasing. -/
  entries : List (κ × α)
  increasing : entries.Pairwise fun a b => a.1 < b.1
  deriving DecidableEq, Repr

namespace SortedMap

/-- The map without entries. -/
def empty : SortedMap κ α := ⟨[], .nil⟩

instance : Inhabited (SortedMap κ α) := ⟨empty⟩

/-- The value at a key. -/
def find? (m : SortedMap κ α) (k : κ) : Option α :=
  lookupEntry k m.entries

omit [DecidableLT κ] in
@[simp] theorem find?_empty (k : κ) : (empty : SortedMap κ α).find? k = none := rfl

/-- The keys, increasing. -/
def keys (m : SortedMap κ α) : List κ :=
  m.entries.map (·.1)

/-- The number of entries. -/
def size (m : SortedMap κ α) : Nat :=
  m.entries.length

/-- Whether there is no entry. -/
def isEmpty (m : SortedMap κ α) : Bool :=
  m.entries.isEmpty

variable [LE κ] [Std.IsLinearOrder κ] [Std.LawfulOrderLT κ]

theorem pairwise_insertEntry (k : κ) (x : α) {l : List (κ × α)}
    (h : l.Pairwise fun a b => a.1 < b.1) :
    (insertEntry k x l).Pairwise fun a b => a.1 < b.1 := by
  induction l with
  | nil => simp [insertEntry]
  | cons head rest ih =>
    obtain ⟨j, y⟩ := head
    obtain ⟨hj, hrest⟩ := List.pairwise_cons.mp h
    simp only [insertEntry]
    split
    · rename_i hlt
      refine List.pairwise_cons.mpr ⟨fun e he => ?_, h⟩
      rcases List.mem_cons.mp he with rfl | he
      · exact hlt
      · exact Std.lt_trans hlt (hj e he)
    · rename_i hnlt
      split
      · rename_i heq
        exact List.pairwise_cons.mpr ⟨fun e he => heq ▸ hj e he, hrest⟩
      · rename_i hne
        refine List.pairwise_cons.mpr ⟨fun e he => ?_, ih hrest⟩
        rcases fst_mem_insertEntry he with heq | he
        · exact heq ▸ Std.lt_of_le_of_ne (Std.not_lt.mp hnlt) (Ne.symm hne)
        · exact hj e he

/-- Puts a value at a key, in place of one that is there. -/
def insert (m : SortedMap κ α) (k : κ) (x : α) : SortedMap κ α :=
  ⟨insertEntry k x m.entries, pairwise_insertEntry k x m.increasing⟩

/-- The map of the entries in a list; the last entry at a key counts. -/
def ofList (l : List (κ × α)) : SortedMap κ α :=
  l.foldl (fun m e => m.insert e.1 e.2) empty

@[simp] theorem find?_insert (m : SortedMap κ α) (k j : κ) (x : α) :
    (m.insert k x).find? j = if j = k then some x else m.find? j :=
  lookupEntry_insertEntry k j x m.entries

end SortedMap

end OperatorModes
