import Mathlib.Data.List.Forall2
import OperatorModes.Proofs.Json.Indented
import OperatorModes.Proofs.Json.Lookup

/-!
# The order of members

The members of an object are found by their keys, so a document in which no key is repeated is the
same value in whatever order they stand. `SameValue` says this of two documents, level by level: items
are compared in their places and members under their keys. Of all the documents of one value there is
one with every object in key order, and bringing a document into canonical form finds it:

> `sameValue_canonical`: a document without repeated keys is the same value as its canonical form.
>
> `canonical_of_keyOrdered`: a document that is in key order is its own canonical form.
-/

namespace OperatorModes.Json

/-! ## Values and their order -/

/-- **Two documents are the same value**: they differ at most in the order of the members of their
objects. -/
inductive SameValue : Json → Json → Prop
  | null : SameValue null null
  | bool (b : Bool) : SameValue (bool b) (bool b)
  | num (n : Number) : SameValue (num n) (num n)
  | str (s : String) : SameValue (str s) (str s)
  | arr {items items' : List Json} (h : List.Forall₂ SameValue items items') :
    SameValue (arr items) (arr items')
  | obj {members members' : List (String × Json)}
      (hkeys : (members.map (·.1)).Perm (members'.map (·.1)))
      (h : ∀ key v w, find? members key = some v → find? members' key = some w → SameValue v w) :
    SameValue (obj members) (obj members')

/-- A document in which the members of every object stand in the order of their keys, each key
once. -/
inductive KeyOrdered : Json → Prop
  | null : KeyOrdered null
  | bool (b : Bool) : KeyOrdered (bool b)
  | num (n : Number) : KeyOrdered (num n)
  | str (s : String) : KeyOrdered (str s)
  | arr {items : List Json} (h : ∀ v ∈ items, KeyOrdered v) : KeyOrdered (arr items)
  | obj {members : List (String × Json)} (hkeys : members.Pairwise fun a b => a.1 < b.1)
      (h : ∀ m ∈ members, KeyOrdered m.2) : KeyOrdered (obj members)

/-- Keys in order are not repeated. -/
theorem KeyOrdered.unrepeated {v : Json} (h : v.KeyOrdered) : v.Unrepeated := by
  induction h with
  | null => exact .null
  | bool b => exact .bool b
  | num n => exact .num n
  | str s => exact .str s
  | arr _ ih => exact .arr ih
  | @obj ms hkeys _ ih => exact .obj (SortedMap.nodup_keys ⟨ms, hkeys⟩) ih

/-! ## Canonical form -/

theorem mem_keys_canonicalMembers_iff {key : String} {ms : List (String × Json)}
    (hkeys : (ms.map (·.1)).Nodup) :
    key ∈ (canonicalMembers ms []).map (·.1) ↔ key ∈ ms.map (·.1) := by
  have hfound : lookupEntry key (canonicalMembers ms []) = (lookupEntry key ms).map canonical :=
    find?_canonicalMembers hkeys
  rw [← isSome_lookupEntry_iff, ← isSome_lookupEntry_iff, hfound, Option.isSome_map]

/-- Canonical form has the same keys. -/
theorem keys_canonicalMembers_perm {ms : List (String × Json)} (hkeys : (ms.map (·.1)).Nodup) :
    (ms.map (·.1)).Perm ((canonicalMembers ms []).map (·.1)) :=
  (List.perm_ext_iff_of_nodup hkeys (nodup_canonicalMembers ms)).mpr fun _ =>
    (mem_keys_canonicalMembers_iff hkeys).symm

/-- **Canonical form is the same value.** -/
theorem sameValue_canonical {v : Json} (h : v.Unrepeated) : v.SameValue v.canonical := by
  induction h with
  | null => exact .null
  | bool b => exact .bool b
  | num n => exact .num n
  | str s => exact .str s
  | @arr items _ ih =>
    rw [canonical, canonicalItems_eq_map]
    exact .arr (List.forall₂_map_right_iff.mpr (List.forall₂_same.mpr ih))
  | @obj ms hkeys _ ih =>
    rw [canonical]
    refine .obj (keys_canonicalMembers_perm hkeys) fun key v w hv hw => ?_
    rw [find?_canonicalMembers hkeys, hv] at hw
    cases hw
    exact ih (key, v) (mem_of_lookupEntry hv)

theorem canonicalMembers_of_keyOrdered {ms : List (String × Json)}
    (hkeys : ms.Pairwise fun a b => a.1 < b.1) (h : ∀ m ∈ ms, m.2.canonical = m.2) :
    canonicalMembers ms [] = ms := by
  have hnodup : (ms.map (·.1)).Nodup := SortedMap.nodup_keys ⟨ms, hkeys⟩
  -- Both lists are in key order, so it is enough that the same is found in them.
  have hmap : (⟨canonicalMembers ms [], pairwise_canonicalMembers .nil⟩ : SortedMap String Json)
      = ⟨ms, hkeys⟩ := by
    refine SortedMap.ext_find? fun key => ?_
    have hfound : find? (canonicalMembers ms []) key = (find? ms key).map canonical :=
      find?_canonicalMembers hnodup
    refine hfound.trans ?_
    show (find? ms key).map canonical = find? ms key
    cases hv : find? ms key with
    | none => rfl
    | some v => exact congrArg some (h (key, v) (mem_of_lookupEntry hv))
  exact congrArg SortedMap.entries hmap

/-- **A document in key order is its own canonical form.** -/
theorem canonical_of_keyOrdered {v : Json} (h : v.KeyOrdered) : v.canonical = v := by
  induction h with
  | null => rfl
  | bool b => rfl
  | num n => rfl
  | str s => rfl
  | @arr items _ ih =>
    have hitems : items.map canonical = items := (List.map_congr_left ih).trans (List.map_id' items)
    rw [canonical, canonicalItems_eq_map, hitems]
  | @obj ms hkeys _ ih =>
    rw [canonical, canonicalMembers_of_keyOrdered hkeys ih]

/-- What is read as a value is the canonical form of what is written. -/
theorem reads_value {v : Json} (h : v.Integral) : Reads value v v.canonical :=
  (reads_tree h).map canonical

end OperatorModes.Json
