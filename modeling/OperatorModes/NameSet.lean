/-!
# Sets of names

A finite set of names as its list in increasing order. The list is the set: two sets with the same
members are equal, and writing the list out is deterministic. The order of names is that of their
code points.
-/

namespace OperatorModes

/-- Puts a name into an increasing list, once. -/
def insertName (n : String) : List String → List String
  | [] => [n]
  | m :: rest =>
    if n < m then n :: m :: rest
    else if n = m then m :: rest
    else m :: insertName n rest

theorem mem_insertName {n x : String} {l : List String} :
    x ∈ insertName n l ↔ x = n ∨ x ∈ l := by
  induction l with
  | nil => simp [insertName]
  | cons m rest ih =>
    simp only [insertName]
    split
    · simp
    · split
      · simp_all
      · simp only [List.mem_cons, ih]
        exact or_left_comm

theorem pairwise_insertName (n : String) {l : List String} (h : l.Pairwise (· < ·)) :
    (insertName n l).Pairwise (· < ·) := by
  induction l with
  | nil => simp [insertName]
  | cons m rest ih =>
    obtain ⟨hm, hrest⟩ := List.pairwise_cons.mp h
    simp only [insertName]
    split
    · rename_i hlt
      refine List.pairwise_cons.mpr ⟨fun x hx => ?_, h⟩
      rcases List.mem_cons.mp hx with rfl | hx
      · exact hlt
      · exact String.lt_trans hlt (hm x hx)
    · rename_i hnlt
      split
      · exact h
      · rename_i hne
        refine List.pairwise_cons.mpr ⟨fun x hx => ?_, ih hrest⟩
        rcases mem_insertName.mp hx with rfl | hx
        · exact Std.lt_of_le_of_ne (String.not_lt.mp hnlt) (Ne.symm hne)
        · exact hm x hx

/-- A finite set of names. -/
structure NameSet where
  /-- The members, in increasing order. -/
  toList : List String
  increasing : toList.Pairwise (· < ·)
  deriving DecidableEq, Repr

namespace NameSet

instance : Membership String NameSet := ⟨fun s n => n ∈ s.toList⟩

instance (n : String) (s : NameSet) : Decidable (n ∈ s) :=
  inferInstanceAs (Decidable (n ∈ s.toList))

theorem mem_def {n : String} {s : NameSet} : n ∈ s ↔ n ∈ s.toList := Iff.rfl

/-- The set without members. -/
def empty : NameSet := ⟨[], .nil⟩

instance : Inhabited NameSet := ⟨empty⟩

/-- Adds a name. -/
def insert (s : NameSet) (n : String) : NameSet :=
  ⟨insertName n s.toList, pairwise_insertName n s.increasing⟩

/-- Adds each name of a list. -/
def insertAll (s : NameSet) (names : List String) : NameSet :=
  names.foldl insert s

/-- The set of the names in a list. -/
def ofList (names : List String) : NameSet :=
  empty.insertAll names

/-- The members of either set. -/
def union (s t : NameSet) : NameSet :=
  s.insertAll t.toList

/-- Whether a name is a member. -/
def contains (s : NameSet) (n : String) : Bool :=
  decide (n ∈ s)

/-- Whether there is no member. -/
def isEmpty (s : NameSet) : Bool :=
  s.toList.isEmpty

@[simp] theorem mem_empty {n : String} : n ∈ empty ↔ False := by
  simp [mem_def, empty]

@[simp] theorem mem_insert {n m : String} {s : NameSet} : n ∈ s.insert m ↔ n = m ∨ n ∈ s :=
  mem_insertName

@[simp] theorem mem_insertAll {n : String} {names : List String} {s : NameSet} :
    n ∈ s.insertAll names ↔ n ∈ s ∨ n ∈ names := by
  induction names generalizing s with
  | nil => simp [insertAll]
  | cons m rest ih =>
    have step : s.insertAll (m :: rest) = (s.insert m).insertAll rest := rfl
    rw [step, ih]
    simp only [mem_insert, List.mem_cons]
    grind

@[simp] theorem mem_ofList {n : String} {names : List String} : n ∈ ofList names ↔ n ∈ names := by
  simp [ofList]

@[simp] theorem mem_union {n : String} {s t : NameSet} : n ∈ s.union t ↔ n ∈ s ∨ n ∈ t := by
  simp [union, mem_def (s := t)]

@[simp] theorem contains_iff {n : String} {s : NameSet} : s.contains n = true ↔ n ∈ s := by
  simp [contains]

end NameSet

end OperatorModes
