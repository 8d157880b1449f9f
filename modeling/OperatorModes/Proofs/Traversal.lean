import Mathlib.Data.List.Nodup
import Mathlib.Data.List.Perm.Lattice
import Mathlib.Logic.Relation
import OperatorModes.Proofs.Payload

/-!
# The traversals of a payload

Collecting, looking for a name, looking for any name and writing out each go through a payload on
their own, and some functions rely on the one, some on the other. All of them see the flattened set
and nothing else of the payload:

> `collectInto_eq_union`, `contains_iff_mem_flatten`, `isEmpty_iff_flatten`

What is left of a payload's structure is therefore what it does to that set. A union takes the sets of
its members together, so members may change places, be repeated, and be put into unions of their own,
wherever in the payload (`Regroups`).
-/

namespace OperatorModes

namespace NameSet

/-- There is only one increasing list of given names. -/
theorem eq_of_increasing {l m : List String} (hl : l.Pairwise (· < ·)) (hm : m.Pairwise (· < ·))
    (h : ∀ n, n ∈ l ↔ n ∈ m) : l = m := by
  have hnodup : ∀ {l : List String}, l.Pairwise (· < ·) → l.Nodup := fun hl =>
    hl.imp fun hlt => String.ne_of_lt hlt
  have hperm : l.Perm m := (List.perm_ext_iff_of_nodup (hnodup hl) (hnodup hm)).mpr h
  exact hperm.eq_of_pairwise (fun a b _ _ hab hba => absurd (String.lt_trans hab hba)
    (String.lt_irrefl a)) hl hm

/-- A set is its members. -/
theorem ext_mem {s t : NameSet} (h : ∀ n, n ∈ s ↔ n ∈ t) : s = t :=
  ext_toList (eq_of_increasing s.increasing t.increasing h)

end NameSet

namespace Payload

/-! ## One payload -/

/-- Collecting adds the flattened set, whatever has been collected before. -/
theorem collectInto_eq_union (p : Payload) (out : NameSet) :
    p.collectInto out = out.union p.flatten := by
  refine NameSet.ext_mem fun n => ?_
  rw [mem_collectInto, NameSet.mem_union, mem_flatten]

mutual

theorem contains_iff {n : String} : ∀ {p : Payload}, p.contains n = true ↔ p.Mentions n
  | names vars => by rw [contains, NameSet.contains_iff, mentions_names]
  | union members => by rw [contains, anyContains_iff members, mentions_union]

theorem anyContains_iff {n : String} :
    ∀ members : List Payload, anyContains members n = true ↔ ∃ p ∈ members, p.Mentions n
  | [] => by simp [anyContains]
  | p :: rest => by
    rw [anyContains, Bool.or_eq_true, contains_iff, anyContains_iff rest]
    simp only [List.mem_cons, exists_eq_or_imp]

end

theorem contains_iff_mem_flatten {p : Payload} {n : String} :
    p.contains n = true ↔ n ∈ p.flatten :=
  contains_iff.trans mem_flatten.symm

theorem isEmpty_iff_flatten {p : Payload} : p.isEmpty = true ↔ p.flatten = .empty := by
  rw [isEmpty_iff]
  constructor
  · intro h
    exact NameSet.ext_mem fun n => iff_of_false (fun hn => h n (mem_flatten.mp hn)) (by simp)
  · intro h n hn
    rw [← mem_flatten, h, NameSet.mem_empty] at hn
    exact hn

/-! ## Unions -/

theorem collectMembers_eq_foldl (members : List Payload) (out : NameSet) :
    collectMembers members out = (members.map flatten).foldl .union out := by
  induction members generalizing out with
  | nil => rfl
  | cons p rest ih => rw [collectMembers, ih, collectInto_eq_union, List.map_cons, List.foldl_cons]

theorem flatten_union (members : List Payload) :
    (union members).flatten = (members.map flatten).foldl .union .empty := by
  rw [flatten, collectInto, collectMembers_eq_foldl]

/-- One union in the payload, at any depth, has its members in another order, or one of them once
more, or some of them in a union of their own. -/
inductive Regroups : Payload → Payload → Prop
  | permute {ps qs : List Payload} (h : ps.Perm qs) : Regroups (union ps) (union qs)
  | duplicate {p : Payload} {ps : List Payload} (h : p ∈ ps) : Regroups (union ps) (union (p :: ps))
  | nest (ps qs rs : List Payload) :
      Regroups (union (ps ++ (qs ++ rs))) (union (ps ++ union qs :: rs))
  | member {ps qs : List Payload} {p q : Payload} (h : Regroups p q) :
      Regroups (union (ps ++ p :: qs)) (union (ps ++ q :: qs))

theorem Regroups.mentions_iff {n : String} {p q : Payload} (h : Regroups p q) :
    p.Mentions n ↔ q.Mentions n := by
  induction h with
  | permute h => simp only [mentions_union, h.mem_iff]
  | @duplicate p ps hp =>
    simp only [mentions_union, List.mem_cons, exists_eq_or_imp]
    exact (or_iff_right_of_imp fun hn => ⟨p, hp, hn⟩).symm
  | nest ps qs rs =>
    simp only [mentions_union, List.mem_append, List.mem_cons, or_and_right, exists_or,
      exists_eq_left]
  | member _ ih =>
    simp only [mentions_union, List.mem_append, List.mem_cons, or_and_right, exists_or,
      exists_eq_left, ih]

theorem flatten_eq_of_eqvGen {p q : Payload} (h : Relation.EqvGen Regroups p q) :
    p.flatten = q.flatten := by
  induction h with
  | rel _ _ hstep =>
    refine NameSet.ext_mem fun n => ?_
    rw [mem_flatten, mem_flatten, hstep.mentions_iff]
  | refl _ => rfl
  | symm _ _ _ ih => exact ih.symm
  | trans _ _ _ _ _ ih ih' => exact ih.trans ih'

/-- **The traversals agree.** The flattened set of a payload holds the names that stand anywhere in it.
To collect a payload is to add this set; a payload contains a name if the set does, and is empty if the
set is; it is written as the increasing list of the set. The set of a union is the union of the sets of
its members, and stays the same when members are put in another order, repeated or regrouped. -/
theorem traversals_agree :
    (∀ p : Payload, (∀ n, n ∈ p.flatten ↔ p.Mentions n) ∧
      (∀ out, p.collectInto out = out.union p.flatten) ∧
      (∀ n, p.contains n = true ↔ n ∈ p.flatten) ∧
      (p.isEmpty = true ↔ p.flatten = .empty) ∧
      ∃ names : List String, names.Pairwise (· < ·) ∧ (∀ n, n ∈ names ↔ n ∈ p.flatten) ∧
        p.render = String.intercalate ", " names) ∧
    (∀ members, (union members).flatten = (members.map flatten).foldl .union .empty) ∧
    ∀ p q : Payload, Relation.EqvGen Regroups p q → p.flatten = q.flatten := by
  refine ⟨fun p => ⟨fun _ => mem_flatten, p.collectInto_eq_union,
    fun _ => contains_iff_mem_flatten, isEmpty_iff_flatten, ?_⟩, flatten_union,
    fun _ _ => flatten_eq_of_eqvGen⟩
  exact ⟨p.flatten.toList, p.flatten.increasing, fun _ => NameSet.mem_def.symm, rfl⟩

/-- Three members, of which two are put into a union and change places there, and the third is
repeated on either side of it. -/
theorem traversals_agree_regrouped :
    let xy : Payload := .of ["y", "x"]
    let z : Payload := .of ["z"]
    let flat : Payload := union [xy, z, .empty]
    let nested : Payload := union [xy, union [.empty, z], xy]
    Relation.EqvGen Regroups flat nested ∧ nested.flatten = flat.flatten ∧
      nested.flatten.toList = ["x", "y", "z"] ∧ nested.contains "z" = true ∧
      nested.contains "w" = false ∧ nested.isEmpty = false ∧
      nested.collectInto (.ofList ["w"]) = .ofList ["w", "x", "y", "z"] := by
  intro xy z flat nested
  obtain ⟨hpayload, -, hregrouped⟩ := traversals_agree
  obtain ⟨-, hcollect, hcontains, hempty, -⟩ := hpayload nested
  have hsteps : Relation.EqvGen Regroups flat nested := by
    have hnest : Regroups flat (union [xy, union [z, .empty]]) := .nest [xy] [z, .empty] []
    have hplaces : Regroups (union [xy, union [z, .empty]]) (union [union [z, .empty], xy]) :=
      .permute (.swap _ _ [])
    have htwice : Regroups (union [union [z, .empty], xy]) (union [xy, union [z, .empty], xy]) :=
      .duplicate (List.mem_cons_of_mem _ List.mem_cons_self)
    have hinside : Regroups (union ([xy] ++ union [z, .empty] :: [xy]))
        (union ([xy] ++ union [.empty, z] :: [xy])) := .member (.permute (.swap _ _ []))
    exact .trans _ _ _ (.rel _ _ hnest) (.trans _ _ _ (.rel _ _ hplaces)
      (.trans _ _ _ (.rel _ _ htwice) (.rel _ _ hinside)))
  have hflat : flat.flatten = nested.flatten := hregrouped flat nested hsteps
  refine ⟨hsteps, hflat.symm, by decide, (hcontains "z").mpr (by decide), ?_, ?_, ?_⟩
  · exact Bool.eq_false_iff.mpr fun h => absurd ((hcontains "w").mp h) (by decide)
  · exact Bool.eq_false_iff.mpr fun h => absurd (hempty.mp h) (by decide)
  · exact (hcollect _).trans (by decide)

end Payload

end OperatorModes
