import OperatorModes.Payload

/-!
# The variables of a payload

A name is mentioned by a payload when it stands in the payload's set or in one of its members, at
any depth: `Mentions`, which knows nothing of accumulators, of order or of sets. The functions that
walk a payload each do so in their own way; here each is tied to `Mentions`:

> `mem_flatten`: the flattened set holds exactly the mentioned names.
> `isEmpty_iff`: a payload is empty exactly when it mentions no name.
-/

namespace OperatorModes

theorem insertName_of_forall_lt {n : String} :
    ∀ {l : List String}, (∀ m ∈ l, m < n) → insertName n l = l ++ [n]
  | [], _ => rfl
  | m :: rest, h => by
    have hlt : m < n := h m List.mem_cons_self
    have hne : n ≠ m := fun heq => String.lt_irrefl _ (heq ▸ hlt)
    have hnlt : ¬n < m := fun hgt => String.lt_irrefl _ (String.lt_trans hlt hgt)
    rw [insertName, if_neg hnlt, if_neg hne,
      insertName_of_forall_lt fun e he => h e (List.mem_cons_of_mem _ he), List.cons_append]

namespace NameSet

theorem isEmpty_iff {s : NameSet} : s.isEmpty = true ↔ ∀ n, n ∉ s := by
  unfold isEmpty
  rw [List.isEmpty_iff, List.eq_nil_iff_forall_not_mem]
  exact Iff.rfl

theorem toList_insertAll :
    ∀ (l : List String) (s : NameSet), (s.toList ++ l).Pairwise (· < ·) →
      (s.insertAll l).toList = s.toList ++ l
  | [], s, _ => (List.append_nil s.toList).symm
  | n :: l, s, h => by
    have hbelow : ∀ m ∈ s.toList, m < n := fun m hm =>
      (List.pairwise_append.mp h).2.2 m hm n List.mem_cons_self
    have hinsert : (s.insert n).toList = s.toList ++ [n] := insertName_of_forall_lt hbelow
    have happend : s.toList ++ n :: l = (s.insert n).toList ++ l := by
      rw [hinsert, List.append_assoc, List.singleton_append]
    rw [happend] at h ⊢
    exact toList_insertAll l (s.insert n) h

theorem ext_toList {s t : NameSet} (h : s.toList = t.toList) : s = t := by
  cases s
  cases t
  cases h
  rfl

/-- A set is rebuilt from its members. -/
theorem ofList_toList (s : NameSet) : ofList s.toList = s :=
  ext_toList (toList_insertAll s.toList empty s.increasing)

end NameSet

namespace Payload

/-- Induction over a payload: a union by all its members at once. -/
theorem induct {motive : Payload → Prop} (names : ∀ vars, motive (names vars))
    (union : ∀ members, (∀ p ∈ members, motive p) → motive (union members)) : ∀ p, motive p
  | .names vars => names vars
  | .union members => union members fun p _ => induct names union p

/-- A name stands in the payload's set, or in one of its members. -/
inductive Mentions (n : String) : Payload → Prop where
  | names {vars : NameSet} (h : n ∈ vars) : Mentions n (names vars)
  | union {p : Payload} {members : List Payload} (hp : p ∈ members) (h : Mentions n p) :
      Mentions n (union members)

@[simp] theorem mentions_names {n : String} {vars : NameSet} :
    (names vars).Mentions n ↔ n ∈ vars := by
  constructor
  · intro h
    cases h with
    | names h => exact h
  · exact .names

@[simp] theorem mentions_union {n : String} {members : List Payload} :
    (union members).Mentions n ↔ ∃ p ∈ members, p.Mentions n := by
  constructor
  · intro h
    cases h with
    | union hp h => exact ⟨_, hp, h⟩
  · intro hmember
    obtain ⟨p, hp, h⟩ := hmember
    exact .union hp h

/-! ## Flattening -/

mutual

theorem mem_collectInto {n : String} :
    ∀ (p : Payload) (out : NameSet), n ∈ p.collectInto out ↔ n ∈ out ∨ p.Mentions n
  | names vars, out => by
    rw [collectInto, NameSet.mem_union, mentions_names]
  | union members, out => by
    rw [collectInto, mem_collectMembers members out, mentions_union]

theorem mem_collectMembers {n : String} :
    ∀ (members : List Payload) (out : NameSet),
      n ∈ collectMembers members out ↔ n ∈ out ∨ ∃ p ∈ members, p.Mentions n
  | [], out => by simp [collectMembers]
  | p :: rest, out => by
    rw [collectMembers, mem_collectMembers rest, mem_collectInto p, or_assoc]
    simp only [List.mem_cons, exists_eq_or_imp]

end

/-- The flattened set holds exactly the names that the payload mentions. -/
@[simp] theorem mem_flatten {n : String} {p : Payload} : n ∈ p.flatten ↔ p.Mentions n := by
  rw [flatten, mem_collectInto, NameSet.mem_empty, false_or]

/-! ## Emptiness -/

mutual

/-- A payload is empty exactly when it mentions no name. -/
theorem isEmpty_iff : ∀ {p : Payload}, p.isEmpty = true ↔ ∀ n, ¬ p.Mentions n
  | names vars => by simp only [isEmpty, NameSet.isEmpty_iff, mentions_names]
  | union members => by
    rw [isEmpty, allEmpty_iff members]
    constructor
    · intro h n hn
      obtain ⟨p, hp, hn⟩ := mentions_union.mp hn
      exact h p hp n hn
    · intro h p hp n hn
      exact h n (.union hp hn)

theorem allEmpty_iff :
    ∀ (members : List Payload), allEmpty members = true ↔ ∀ p ∈ members, ∀ n, ¬ p.Mentions n
  | [] => by simp [allEmpty]
  | p :: rest => by
    rw [allEmpty, Bool.and_eq_true, isEmpty_iff, allEmpty_iff rest, List.forall_mem_cons]

end

end Payload

end OperatorModes
