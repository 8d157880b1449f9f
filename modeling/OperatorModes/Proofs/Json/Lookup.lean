import Mathlib.Data.List.Pairwise
import OperatorModes.Proofs.Json.Draft

/-!
# Looking members up

The members of an object may stand in any order and among others, but where no key is repeated they
are no more than a function from keys to values. A record is decoded member by member, in the order
in which they stand. When its fields are apart, so that none touches what another has put into the
draft, that comes to the same as looking its fields up one after another in the order of their
declaration:

> `decodeRecord_eq_ok_iff`: a record is decoded from an object by what stands under its keys.

Bringing an object into canonical form changes nothing under a key but the value
(`find?_canonicalMembers`).
-/

namespace OperatorModes.Json

variable {α β γ σ : Type}

/-! ## Members and paths -/

/-- What stands at the end of a path of keys into a document. -/
def at? : Json → List String → Option Json
  | v, [] => some v
  | obj members, key :: path => (find? members key).bind fun v => v.at? path
  | _, _ :: _ => none

theorem at?_singleton (ms : List (String × Json)) (key : String) :
    (obj ms).at? [key] = find? ms key := by
  rw [at?]
  cases find? ms key with
  | none => rfl
  | some v => rw [Option.bind_some, at?]

/-- A path goes on from where its first keys lead to, if they lead anywhere. -/
theorem at?_append (key : String) (rest : List String) :
    ∀ (v : Json) (path : List String),
      v.at? (path ++ key :: rest) = ((v.at? path).getD .null).at? (key :: rest)
  | v, [] => by rw [List.nil_append, at?, Option.getD_some]
  | obj ms, k :: path => by
    rw [List.cons_append, at?, at?]
    cases find? ms k with
    | none => rfl
    | some w =>
      rw [Option.bind_some, Option.bind_some]
      exact at?_append key rest w path
  | null, _ :: _ => rfl
  | bool _, _ :: _ => rfl
  | num _, _ :: _ => rfl
  | str _, _ :: _ => rfl
  | arr _, _ :: _ => rfl

theorem at?_pair (ms : List (String × Json)) (key key' : String) :
    (obj ms).at? [key, key'] = ((find? ms key).getD .null).at? [key'] := by
  rw [← at?_singleton]
  exact at?_append key' [] (obj ms) [key]

/-- A document in which no object has two members with one key. -/
inductive Unrepeated : Json → Prop
  | null : Unrepeated null
  | bool (b : Bool) : Unrepeated (bool b)
  | num (n : Number) : Unrepeated (num n)
  | str (s : String) : Unrepeated (str s)
  | arr {items : List Json} (h : ∀ v ∈ items, Unrepeated v) : Unrepeated (arr items)
  | obj {members : List (String × Json)} (hkeys : (members.map (·.1)).Nodup)
      (h : ∀ m ∈ members, Unrepeated m.2) : Unrepeated (obj members)

/-- Nothing is found under the key of the first member in the others, when no key is repeated. -/
theorem find?_eq_none_of_nodup {key : String} {v : Json} {ms : List (String × Json)}
    (h : (((key, v) :: ms).map (·.1)).Nodup) : find? ms key = none := by
  have hnot : key ∉ ms.map (·.1) := (List.nodup_cons.mp h).1
  rwa [← isSome_lookupEntry_iff, Option.not_isSome_iff_eq_none] at hnot

theorem Unrepeated.nodup {ms : List (String × Json)} (h : Unrepeated (.obj ms)) :
    (ms.map (·.1)).Nodup := by
  cases h with
  | obj hkeys _ => exact hkeys

theorem Unrepeated.find? {ms : List (String × Json)} {key : String} {v : Json}
    (h : Unrepeated (.obj ms)) (hv : find? ms key = some v) : Unrepeated v := by
  cases h with
  | obj _ hmembers => exact hmembers (key, v) (mem_of_lookupEntry hv)

theorem Unrepeated.at? : ∀ {v w : Json} {path : List String},
    Unrepeated v → v.at? path = some w → Unrepeated w
  | v, w, [], h, hw => by
    rw [Json.at?, Option.some.injEq] at hw
    exact hw ▸ h
  | .obj ms, w, key :: path, h, hw => by
    rw [Json.at?] at hw
    obtain ⟨u, hu, hw⟩ := Option.bind_eq_some_iff.mp hw
    exact Unrepeated.at? (h.find? hu) hw
  | .null, _, _ :: _, _, hw => by cases hw
  | .bool _, _, _ :: _, _, hw => by cases hw
  | .num _, _, _ :: _, _, hw => by cases hw
  | .str _, _, _ :: _, _, hw => by cases hw
  | .arr _, _, _ :: _, _, hw => by cases hw

/-! ## Canonical form -/

theorem canonical_eq_str_iff {v : Json} {s : String} : v.canonical = .str s ↔ v = .str s := by
  cases v <;> simp [canonical]

theorem lookupEntry_canonicalMembers {key : String} :
    ∀ {ms done : List (String × Json)}, (ms.map (·.1)).Nodup →
      lookupEntry key (canonicalMembers ms done)
        = ((find? ms key).map canonical).or (lookupEntry key done)
  | [], _, _ => rfl
  | (k, v) :: ms, done, h => by
    rw [canonicalMembers, lookupEntry_canonicalMembers (List.nodup_cons.mp h).2,
      lookupEntry_insertEntry, Json.find?, Json.find?, lookupEntry]
    by_cases heq : key = k
    · have hnone : lookupEntry key ms = none := heq ▸ find?_eq_none_of_nodup h
      rw [if_pos heq, if_pos heq, hnone]
      rfl
    · rw [if_neg heq, if_neg heq]

/-- Under each key stands the canonical form of what stood there. -/
theorem find?_canonicalMembers {key : String} {ms : List (String × Json)}
    (h : (ms.map (·.1)).Nodup) :
    find? (canonicalMembers ms []) key = (find? ms key).map canonical := by
  rw [Json.find?, lookupEntry_canonicalMembers h]
  exact Option.or_none

theorem pairwise_canonicalMembers :
    ∀ {ms done : List (String × Json)}, (done.Pairwise fun a b => a.1 < b.1) →
      (canonicalMembers ms done).Pairwise fun a b => a.1 < b.1
  | [], _, h => h
  | (k, v) :: ms, done, h => by
    rw [canonicalMembers]
    exact pairwise_canonicalMembers (SortedMap.pairwise_insertEntry k v.canonical h)

theorem nodup_canonicalMembers (ms : List (String × Json)) :
    ((canonicalMembers ms []).map (·.1)).Nodup :=
  SortedMap.nodup_keys ⟨canonicalMembers ms [], pairwise_canonicalMembers .nil⟩

/-! ## Fields that are apart -/

/-- **Two fields are apart.** Their keys differ, reading one of them does not fill the other, and
they may be read in either order. -/
structure Slot.Apart (slot other : Slot Decoder σ) : Prop where
  keys : slot.key ≠ other.key
  fills : ∀ {draft next v}, slot.read draft v = .ok next →
    other.isFilled next = other.isFilled draft
  filled : ∀ {draft next v}, other.read draft v = .ok next →
    slot.isFilled next = slot.isFilled draft
  swap : ∀ {draft last v w}, (∃ next, slot.read draft v = .ok next ∧ other.read next w = .ok last) ↔
    ∃ next, other.read draft w = .ok next ∧ slot.read next v = .ok last

theorem Slot.Apart.symm {slot other : Slot Decoder σ} (h : slot.Apart other) :
    other.Apart slot where
  keys := h.keys.symm
  fills := h.filled
  filled := h.fills
  swap := h.swap.symm

instance : Std.Symm (Slot.Apart : Slot Decoder σ → Slot Decoder σ → Prop) :=
  ⟨fun _ _ h => h.symm⟩

/-- Fields kept in different parts of a draft are apart. -/
theorem part_apart {key key' : String} {isOptional isOptional' : Bool} {get : σ → Option β}
    {get' : σ → Option γ} {put : σ → β → σ} {put' : σ → γ → σ} {decoder : Decoder β}
    {decoder' : Decoder γ} (hkeys : key ≠ key') (hget : ∀ draft x, get (put' draft x) = get draft)
    (hget' : ∀ draft x, get' (put draft x) = get' draft)
    (hput : ∀ draft x y, put' (put draft x) y = put (put' draft y) x) :
    Slot.Apart (part key isOptional get put decoder)
      (part key' isOptional' get' put' decoder') where
  keys := hkeys
  fills := by
    intro draft next v h
    obtain ⟨x, -, rfl⟩ := read_part_eq_ok_iff.mp h
    exact congrArg Option.isSome (hget' draft x)
  filled := by
    intro draft next v h
    obtain ⟨x, -, rfl⟩ := read_part_eq_ok_iff.mp h
    exact congrArg Option.isSome (hget draft x)
  swap := by
    intro draft last v w
    simp only [read_part_eq_ok_iff]
    constructor
    · rintro ⟨_, ⟨x, hx, rfl⟩, y, hy, rfl⟩
      exact ⟨_, ⟨y, hy, rfl⟩, x, hx, (hput draft x y).symm⟩
    · rintro ⟨_, ⟨y, hy, rfl⟩, x, hx, rfl⟩
      exact ⟨_, ⟨x, hx, rfl⟩, y, hy, hput draft x y⟩

/-! ## Records -/

/-- Decodes fields in the order of their declaration, each from what is found under its key. -/
def fill (found : String → Option Json) : List (Slot Decoder σ) → σ → Except ReadError σ
  | [], draft => .ok draft
  | slot :: slots, draft =>
    match found slot.key with
    | none => fill found slots draft
    | some v => do
      let draft ← slot.read draft v
      fill found slots draft

theorem fill_congr {found found' : String → Option Json} :
    ∀ {slots : List (Slot Decoder σ)} (draft : σ),
      (∀ slot ∈ slots, found slot.key = found' slot.key) →
      fill found slots draft = fill found' slots draft
  | [], _, _ => rfl
  | slot :: slots, draft, h => by
    obtain ⟨hslot, hslots⟩ := List.forall_mem_cons.mp h
    rw [fill, fill, hslot]
    cases found' slot.key with
    | none => exact fill_congr draft hslots
    | some v => exact bind_congr fun next => fill_congr next hslots

/-- A field under a new key may be decoded before all the others. -/
theorem fill_find?_cons {slot : Slot Decoder σ} {v : Json} {ms : List (String × Json)}
    (hnew : find? ms slot.key = none) :
    ∀ {slots : List (Slot Decoder σ)} {draft last : σ}, slots.Pairwise Slot.Apart → slot ∈ slots →
      (fill (find? ((slot.key, v) :: ms)) slots draft = .ok last ↔
        ∃ next, slot.read draft v = .ok next ∧ fill (find? ms) slots next = .ok last)
  | first :: slots, draft, last, hapart, hmem => by
    obtain ⟨hfirst, hslots⟩ := List.pairwise_cons.mp hapart
    rw [fill]
    rcases List.mem_cons.mp hmem with rfl | hmem
    · -- It is the first of the fields: for the others there is nothing new.
      have hhere : find? ((slot.key, v) :: ms) slot.key = some v := if_pos rfl
      have hrest : ∀ next, fill (find? ((slot.key, v) :: ms)) slots next
          = fill (find? ms) slots next := by
        refine fun next => fill_congr next fun other hother => ?_
        exact if_neg (hfirst other hother).keys.symm
      rw [hhere, bind_eq_ok_iff]
      simp only [fill, hnew, hrest]
    · have hne : first.key ≠ slot.key := (hfirst slot hmem).keys
      have hhere : find? ((slot.key, v) :: ms) first.key = find? ms first.key := if_neg hne
      rw [hhere]
      simp only [fill]
      cases find? ms first.key with
      | none => exact fill_find?_cons hnew hslots hmem
      | some w =>
        simp only [bind_eq_ok_iff, fill_find?_cons hnew hslots hmem]
        -- The two fields are read in either order.
        constructor
        · rintro ⟨middle, hmiddle, next, hnext, hlast⟩
          obtain ⟨middle', hmiddle', hnext'⟩ := (hfirst slot hmem).swap.mp ⟨middle, hmiddle, hnext⟩
          exact ⟨middle', hmiddle', next, hnext', hlast⟩
        · rintro ⟨middle, hmiddle, next, hnext, hlast⟩
          obtain ⟨middle', hmiddle', hnext'⟩ := (hfirst slot hmem).swap.mpr ⟨middle, hmiddle, hnext⟩
          exact ⟨middle', hmiddle', next, hnext', hlast⟩

/-- Members without a repeated key are gathered in the order of the fields. -/
theorem Shape.gather_eq_ok_iff {shape : Shape Decoder σ α}
    (hapart : shape.slots.Pairwise Slot.Apart) :
    ∀ {ms : List (String × Json)} {draft last : σ}, (ms.map (·.1)).Nodup →
      (∀ slot ∈ shape.slots, slot.key ∈ ms.map (·.1) → slot.isFilled draft = false) →
      (shape.gather ms draft = .ok last ↔ fill (find? ms) shape.slots draft = .ok last)
  | [], draft, last, _, _ => by
    have hnone : ∀ slots : List (Slot Decoder σ), fill (find? []) slots draft = .ok draft := by
      intro slots
      induction slots with
      | nil => rfl
      | cons slot slots ih => exact ih
    rw [hnone, Shape.gather]
  | (key, v) :: ms, draft, last, hkeys, hfree => by
    have hnew : find? ms key = none := find?_eq_none_of_nodup hkeys
    obtain ⟨hfresh, hmore⟩ := List.nodup_cons.mp hkeys
    rw [Shape.gather]
    cases hslot? : shape.slot? key with
    | none =>
      have hskip : fill (find? ((key, v) :: ms)) shape.slots draft
          = fill (find? ms) shape.slots draft := by
        refine fill_congr draft fun slot hslot => if_neg fun heq => ?_
        exact List.find?_eq_none.mp hslot? slot hslot (beq_iff_eq.mpr heq)
      rw [hskip]
      exact gather_eq_ok_iff hapart hmore fun slot hslot hmem =>
        hfree slot hslot (List.mem_cons_of_mem _ hmem)
    | some slot =>
      have hslot : slot ∈ shape.slots := Shape.mem_slots_of_slot? hslot?
      have hkey := List.find?_some hslot?
      obtain rfl : slot.key = key := eq_of_beq hkey
      dsimp only
      rw [hfree slot hslot List.mem_cons_self, if_neg Bool.false_ne_true, bind_eq_ok_iff,
        fill_find?_cons hnew hapart hslot]
      refine exists_congr fun next => and_congr_right fun hnext => ?_
      -- The fields under the remaining keys are others, and still free.
      refine gather_eq_ok_iff hapart hmore fun other hother hmem => ?_
      have hne : slot ≠ other := fun heq => hfresh (heq ▸ hmem)
      rw [(hapart.forall hslot hother hne).fills hnext]
      exact hfree other hother (List.mem_cons_of_mem _ hmem)

/-- **A record is decoded by what is found under its keys.** -/
theorem decodeRecord_eq_ok_iff {shape : Shape Decoder σ α} {leftOver : Nat → Nat → ReadError}
    (hapart : shape.slots.Pairwise Slot.Apart)
    (hblank : ∀ slot ∈ shape.slots, slot.isFilled shape.blank = false) {ms : List (String × Json)}
    (hkeys : (ms.map (·.1)).Nodup) {a : α} :
    decodeRecord shape leftOver (.obj ms) = .ok a ↔
      ∃ draft, fill (find? ms) shape.slots shape.blank = .ok draft ∧ shape.close draft = .ok a := by
  rw [decodeRecord, bind_eq_ok_iff]
  simp only [Shape.gather_eq_ok_iff hapart hkeys fun slot hslot _ => hblank slot hslot]

/-- **What a field is decoded as**: nothing, if there is no member under its key. -/
def FieldIs (ms : List (String × Json)) (key : String) (decoder : Decoder β) (x : Option β) :
    Prop :=
  match find? ms key with
  | none => x = none
  | some v => ∃ y, decoder v = .ok y ∧ x = some y

theorem fieldIs_some_iff {ms : List (String × Json)} {key : String} {decoder : Decoder β} {x : β} :
    FieldIs ms key decoder (some x) ↔ ∃ v, find? ms key = some v ∧ decoder v = .ok x := by
  unfold FieldIs
  cases find? ms key with
  | none => simp
  | some v => simp

/-- In canonical form a field is decoded from the canonical form of what stood there. -/
theorem fieldIs_canonicalMembers {ms : List (String × Json)} {key : String} {decoder : Decoder β}
    {x : Option β} (hkeys : (ms.map (·.1)).Nodup) :
    FieldIs (canonicalMembers ms []) key decoder x ↔
      FieldIs ms key (fun v => decoder v.canonical) x := by
  unfold FieldIs
  rw [find?_canonicalMembers hkeys]
  cases find? ms key with
  | none => rfl
  | some v => rfl

theorem fill_part_eq_ok_iff {ms : List (String × Json)} {key : String} {isOptional : Bool}
    {get : σ → Option β} {put : σ → β → σ} {decoder : Decoder β} {slots : List (Slot Decoder σ)}
    {draft last : σ} :
    fill (find? ms) (part key isOptional get put decoder :: slots) draft = .ok last ↔
      ∃ x, FieldIs ms key decoder x ∧
        fill (find? ms) slots (x.elim draft (put draft)) = .ok last := by
  have hkey : (part key isOptional get put decoder).key = key := rfl
  rw [fill, hkey]
  unfold FieldIs
  cases find? ms key with
  | none => simp
  | some v =>
    simp only [bind_eq_ok_iff, read_part_eq_ok_iff]
    constructor
    · rintro ⟨_, ⟨x, hx, rfl⟩, hlast⟩
      exact ⟨some x, ⟨x, hx, rfl⟩, hlast⟩
    · rintro ⟨_, ⟨x, hx, rfl⟩, hlast⟩
      exact ⟨_, ⟨x, hx, rfl⟩, hlast⟩

/-- A record of two fields is decoded by what its fields are decoded as. -/
theorem decodeRecord_pair_eq_ok_iff {name key key' : String} {isOptional isOptional' : Bool}
    {get : σ → Option β} {get' : σ → Option γ} {put : σ → β → σ} {put' : σ → γ → σ}
    {decoder : Decoder β} {decoder' : Decoder γ} {blank : σ} {close : σ → Except ReadError α}
    {leftOver : Nat → Nat → ReadError} {ms : List (String × Json)} {a : α}
    (draft : Option β → Option γ → σ)
    (hapart : Slot.Apart (part key isOptional get put decoder)
      (part key' isOptional' get' put' decoder'))
    (hget : get blank = none) (hget' : get' blank = none)
    (hdraft : ∀ x y,
      y.elim (x.elim blank (put blank)) (put' (x.elim blank (put blank))) = draft x y)
    (hkeys : (ms.map (·.1)).Nodup) :
    decodeRecord
        { name, blank, close
          slots := [part key isOptional get put decoder, part key' isOptional' get' put' decoder'] }
        leftOver (.obj ms) = .ok a ↔
      ∃ x y, FieldIs ms key decoder x ∧ FieldIs ms key' decoder' y ∧ close (draft x y) = .ok a := by
  have hblank : ∀ slot ∈ [part key isOptional get put decoder,
      part key' isOptional' get' put' decoder'], slot.isFilled blank = false :=
    List.forall_mem_cons.mpr ⟨congrArg Option.isSome hget,
      List.forall_mem_singleton.mpr (congrArg Option.isSome hget')⟩
  rw [decodeRecord_eq_ok_iff (List.pairwise_pair.mpr hapart) hblank hkeys]
  simp only [fill_part_eq_ok_iff, hdraft]
  constructor
  · rintro ⟨last, ⟨x, hx, y, hy, hlast⟩, hclose⟩
    cases hlast
    exact ⟨x, y, hx, hy, hclose⟩
  · rintro ⟨x, y, hx, hy, hclose⟩
    exact ⟨draft x y, ⟨x, hx, y, hy, rfl⟩, hclose⟩

/-! ## Simple fields -/

theorem need_bind_eq_ok_iff {key : String} {x : Option β} {f : β → Except ReadError α} {a : α} :
    (need key x >>= f) = .ok a ↔ ∃ y, x = some y ∧ f y = .ok a := by
  cases x with
  | none => exact iff_of_false (fun h => by cases h) (by simp)
  | some y =>
    simp only [Option.some.injEq, exists_eq_left']
    rfl

theorem decodeText_eq_ok_iff {v : Json} {s : String} : decodeText v = .ok s ↔ v = .str s := by
  cases v with
  | str t => simp [decodeText]
  | _ => simp [decodeText]

theorem fieldIs_text_iff {ms : List (String × Json)} {key s : String} :
    FieldIs ms key decodeText (some s) ↔ find? ms key = some (.str s) := by
  simp only [fieldIs_some_iff, decodeText_eq_ok_iff, exists_eq_right]

/-- A string is found in canonical form where it stood. -/
theorem fieldIs_canonical_text_iff {ms : List (String × Json)} {key s : String} :
    FieldIs ms key (fun v => decodeText v.canonical) (some s) ↔ find? ms key = some (.str s) := by
  simp only [fieldIs_some_iff, decodeText_eq_ok_iff, canonical_eq_str_iff, exists_eq_right]

end OperatorModes.Json
