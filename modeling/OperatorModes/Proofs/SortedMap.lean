import Mathlib.Data.List.Nodup
import Mathlib.Data.List.Perm.Subperm
import OperatorModes.SortedMap

/-!
# Finding, listing and rebuilding

How the three views of a map belong together: the value found at a key, the list of keys, and
emptiness. What is found says everything (`ext_find?`), so the other two are stated by it. The size of
a map is the number of different keys in any list of its keys (`size_eq_length_iff`). Put into an
empty map one after another, the entries of a map make up the same map again, in whatever order
(`ofList_perm`).
-/

namespace OperatorModes

variable {κ α : Type} [LT κ] [DecidableLT κ] [DecidableEq κ]

omit [LT κ] [DecidableLT κ] in
theorem isSome_lookupEntry_iff {k : κ} :
    ∀ {l : List (κ × α)}, (lookupEntry k l).isSome = true ↔ k ∈ l.map (·.1)
  | [] => by simp [lookupEntry]
  | (j, y) :: rest => by
    rw [lookupEntry, List.map_cons, List.mem_cons, ← isSome_lookupEntry_iff (l := rest)]
    by_cases h : k = j
    · rw [if_pos h]
      exact iff_of_true rfl (Or.inl h)
    · rw [if_neg h]
      exact (or_iff_right h).symm

omit [LT κ] [DecidableLT κ] in
theorem mem_of_lookupEntry {k : κ} {x : α} :
    ∀ {l : List (κ × α)}, lookupEntry k l = some x → (k, x) ∈ l
  | (j, y) :: rest, h => by
    rw [lookupEntry] at h
    split at h
    · next heq =>
      cases h
      exact heq ▸ List.mem_cons_self
    · exact List.mem_cons_of_mem _ (mem_of_lookupEntry h)

omit [LT κ] [DecidableLT κ] in
theorem lookupEntry_of_mem {k : κ} {x : α} :
    ∀ {l : List (κ × α)}, (l.map (·.1)).Nodup → (k, x) ∈ l → lookupEntry k l = some x
  | (j, y) :: rest, hkeys, hmem => by
    rw [lookupEntry]
    rcases List.mem_cons.mp hmem with heq | hmem
    · cases heq
      exact if_pos rfl
    · obtain ⟨hnew, hmore⟩ := List.nodup_cons.mp hkeys
      have hkey : k ∈ rest.map (·.1) := List.mem_map_of_mem hmem
      have hne : k ≠ j := fun heq => hnew (heq ▸ hkey)
      rw [if_neg hne]
      exact lookupEntry_of_mem hmore hmem

omit [LT κ] [DecidableLT κ] in
/-- Where no key is repeated, a look-up finds whatever entry there is. -/
theorem lookupEntry_eq_some_iff {k : κ} {x : α} {l : List (κ × α)} (h : (l.map (·.1)).Nodup) :
    lookupEntry k l = some x ↔ (k, x) ∈ l :=
  ⟨mem_of_lookupEntry, lookupEntry_of_mem h⟩

theorem mem_insertEntry {k : κ} {x : α} {e : κ × α} :
    ∀ {l : List (κ × α)}, e ∈ insertEntry k x l → e = (k, x) ∨ e ∈ l
  | [], h => Or.inl (List.mem_singleton.mp h)
  | (j, y) :: rest, h => by
    rw [insertEntry] at h
    split at h
    · exact List.mem_cons.mp h
    · split at h
      · exact (List.mem_cons.mp h).imp_right (List.mem_cons_of_mem _)
      · rcases List.mem_cons.mp h with rfl | h
        · exact Or.inr List.mem_cons_self
        · exact (mem_insertEntry h).imp_right (List.mem_cons_of_mem _)

namespace SortedMap

omit [DecidableLT κ] in
/-- The keys are where something is found. -/
theorem mem_keys_iff {m : SortedMap κ α} {k : κ} : k ∈ m.keys ↔ (m.find? k).isSome = true :=
  isSome_lookupEntry_iff.symm

omit [DecidableLT κ] in
/-- A map is empty exactly when nothing is found in it. -/
theorem isEmpty_iff {m : SortedMap κ α} : m.isEmpty = true ↔ ∀ k, m.find? k = none := by
  have hkeys : m.isEmpty = true ↔ m.keys = [] := by
    rw [isEmpty, List.isEmpty_iff, keys, List.map_eq_nil_iff]
  rw [hkeys, List.eq_nil_iff_forall_not_mem]
  simp only [mem_keys_iff, Option.not_isSome_iff_eq_none]

omit [DecidableLT κ] in
theorem isEmpty_eq_false_iff {m : SortedMap κ α} :
    m.isEmpty = false ↔ ∃ k x, m.find? k = some x := by
  rw [← Bool.not_eq_true, isEmpty_iff, Classical.not_forall]
  simp only [← ne_eq, Option.ne_none_iff_exists']

omit [DecidableLT κ] [DecidableEq κ] in
theorem eq_empty_of_isEmpty {m : SortedMap κ α} (h : m.isEmpty = true) : m = empty := by
  obtain ⟨entries, increasing⟩ := m
  cases List.isEmpty_iff.mp h
  rfl

omit [DecidableLT κ] [DecidableEq κ] in
theorem eq_empty_of_keys_eq_nil {m : SortedMap κ α} (h : m.keys = []) : m = empty :=
  eq_empty_of_isEmpty (List.isEmpty_iff.mpr (List.map_eq_nil_iff.mp h))

end SortedMap

variable [LE κ] [Std.IsLinearOrder κ] [Std.LawfulOrderLT κ]

/-! ## Counting -/

namespace SortedMap

omit [DecidableLT κ] [DecidableEq κ] [Std.IsLinearOrder κ] in
theorem nodup_keys (m : SortedMap κ α) : m.keys.Nodup := by
  refine List.pairwise_map.mpr (m.increasing.imp fun hlt heq => ?_)
  rw [heq] at hlt
  exact Std.lt_irrefl hlt

omit [DecidableLT κ] [DecidableEq κ] [Std.IsLinearOrder κ] in
/-- A list of the keys of a map is as long as the map is large exactly when it repeats none. -/
theorem size_eq_length_iff {m : SortedMap κ α} {ks : List κ} (h : ∀ k, k ∈ ks ↔ k ∈ m.keys) :
    m.size = ks.length ↔ ks.Nodup := by
  have hsize : m.size = m.keys.length := (List.length_map _).symm
  rw [hsize]
  constructor
  · intro hlength
    have hsub : m.keys.Subperm ks := m.nodup_keys.subperm fun k hk => (h k).mpr hk
    exact (hsub.perm_of_length_le (Nat.le_of_eq hlength.symm)).nodup_iff.mp m.nodup_keys
  · intro hnodup
    exact ((List.perm_ext_iff_of_nodup m.nodup_keys hnodup).mpr fun k => (h k).symm).length_eq

end SortedMap

/-! ## Rebuilding -/

omit [LE κ] [Std.IsLinearOrder κ] [Std.LawfulOrderLT κ] in
theorem insertEntry_perm {k : κ} {x : α} :
    ∀ {l : List (κ × α)}, k ∉ l.map (·.1) → (insertEntry k x l).Perm ((k, x) :: l)
  | [], _ => .refl _
  | (j, y) :: rest, h => by
    obtain ⟨hne, hrest⟩ := not_or.mp fun hmem => h (List.mem_cons.mpr hmem)
    rw [insertEntry]
    split
    · exact .refl _
    · exact ((insertEntry_perm hrest).cons (j, y)).trans (.swap (k, x) (j, y) rest)

namespace SortedMap

omit [DecidableLT κ] [DecidableEq κ] in
theorem ext_perm {m n : SortedMap κ α} (h : m.entries.Perm n.entries) : m = n := by
  have hentries : m.entries = n.entries := by
    refine h.eq_of_pairwise (fun a b _ _ hab hba => ?_) m.increasing n.increasing
    exact absurd (Std.lt_trans hab hba) Std.lt_irrefl
  cases m
  cases n
  cases hentries
  rfl

omit [DecidableLT κ] [Std.IsLinearOrder κ] in
theorem find?_eq_some_iff {m : SortedMap κ α} {k : κ} {x : α} :
    m.find? k = some x ↔ (k, x) ∈ m.entries :=
  lookupEntry_eq_some_iff m.nodup_keys

omit [DecidableLT κ] in
/-- A map is what is found in it. -/
theorem ext_find? {m n : SortedMap κ α} (h : ∀ k, m.find? k = n.find? k) : m = n := by
  have hnodup : ∀ m : SortedMap κ α, m.entries.Nodup := fun m =>
    List.Nodup.of_map Prod.fst m.nodup_keys
  refine ext_perm ((List.perm_ext_iff_of_nodup (hnodup m) (hnodup n)).mpr fun e => ?_)
  obtain ⟨k, x⟩ := e
  rw [← find?_eq_some_iff, ← find?_eq_some_iff, h k]

omit [DecidableLT κ] [DecidableEq κ] in
/-- Keys are listed in one way only. -/
theorem keys_eq_of_mem_iff {β : Type} {m : SortedMap κ α} {n : SortedMap κ β}
    (h : ∀ k, k ∈ m.keys ↔ k ∈ n.keys) : m.keys = n.keys := by
  have hperm : m.keys.Perm n.keys := (List.perm_ext_iff_of_nodup m.nodup_keys n.nodup_keys).mpr h
  refine hperm.eq_of_pairwise (fun j k _ _ hjk hkj => ?_) (List.pairwise_map.mpr m.increasing)
    (List.pairwise_map.mpr n.increasing)
  exact absurd (Std.lt_trans hjk hkj) Std.lt_irrefl

theorem entries_foldl_insert :
    ∀ (l : List (κ × α)) (m : SortedMap κ α), ((m.entries ++ l).map (·.1)).Nodup →
      (l.foldl (fun m e => m.insert e.1 e.2) m).entries.Perm (m.entries ++ l)
  | [], m, _ => by rw [List.append_nil, List.foldl_nil]
  | (k, x) :: l, m, h => by
    have hmiddle : (m.entries ++ (k, x) :: l).Perm ((k, x) :: (m.entries ++ l)) :=
      List.perm_middle
    have hfresh : k ∉ m.entries.map (·.1) := fun hmem =>
      (List.nodup_cons.mp ((hmiddle.map (·.1)).nodup_iff.mp h)).1
        (List.map_append ▸ List.mem_append_left _ hmem)
    have hinsert : ((m.insert k x).entries ++ l).Perm (m.entries ++ (k, x) :: l) :=
      ((insertEntry_perm hfresh).append_right l).trans hmiddle.symm
    rw [List.foldl_cons]
    exact (entries_foldl_insert l (m.insert k x) ((hinsert.map (·.1)).nodup_iff.mpr h)).trans hinsert

/-- A map is rebuilt from its entries, in whatever order they come. -/
theorem ofList_perm {m : SortedMap κ α} {l : List (κ × α)} (h : l.Perm m.entries) :
    ofList l = m := by
  have hnodup : (l.map Prod.fst).Nodup := (h.map Prod.fst).nodup_iff.mpr m.nodup_keys
  exact ext_perm ((entries_foldl_insert l empty hnodup).trans h)

/-- A map is rebuilt from its entries. -/
theorem ofList_entries (m : SortedMap κ α) : ofList m.entries = m :=
  ofList_perm (.refl _)

end SortedMap

end OperatorModes
