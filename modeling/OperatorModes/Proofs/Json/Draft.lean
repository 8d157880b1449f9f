import OperatorModes.Json.Variant
import OperatorModes.Proofs.Json.Run
import OperatorModes.Proofs.SortedMap

/-!
# What has been read

What is known of a value because it has been read, in whatever form it was written: as an object with
its members anywhere or as an array, with any of its fields missing. A record comes from a draft, and
a draft has what the reading of one field after another preserves (`exists_draft_of_record`,
`exists_draft_of_decodeRecord`); a field never gets more than what its record leaves of the budget, or
of the depth of the document. The fields of a tagged variant are no deeper than the budget
(`depth_le_of_tagged`) and no deeper than the variant (`depth_le_of_decodeTagged`).
-/

namespace OperatorModes.Json

variable {α β σ τ : Type}

/-! ## Records in text -/

section Text

variable {shape : Shape Reader σ α} {P : σ → Prop} {budget : Nat}

theorem Shape.mem_slots_of_slot? {F : Type → Type} {shape : Shape F σ α} {key : String}
    {slot : Slot F σ} (h : shape.slot? key = some slot) : slot ∈ shape.slots :=
  List.mem_of_find?_eq_some h

theorem Shape.preserves_member
    (hread : ∀ slot ∈ shape.slots, ∀ {draft next text rest}, P draft →
      slot.read draft budget text = .ok (next, rest) → P next)
    {draft next : σ} {text rest : List Char} (hdraft : P draft)
    (h : shape.member budget draft text = .ok (next, rest)) : P next := by
  unfold Shape.member at h
  obtain ⟨⟨key, after⟩, -, h⟩ := bind_eq_ok_iff.mp h
  dsimp only at h
  split at h
  · obtain ⟨start, -, h⟩ := bind_eq_ok_iff.mp h
    obtain ⟨rest', -, h⟩ := bind_eq_ok_iff.mp h
    cases h
    exact hdraft
  · next slot hslot =>
    split at h
    · cases h
    · obtain ⟨start, -, h⟩ := bind_eq_ok_iff.mp h
      exact hread slot (Shape.mem_slots_of_slot? hslot) hdraft h

theorem Shape.preserves_elements
    (hread : ∀ slot ∈ shape.slots, ∀ {draft next text rest}, P draft →
      slot.read draft budget text = .ok (next, rest) → P next) :
    ∀ {slots : List (Slot Reader σ)} {length : Nat} {draft next : σ} {text rest : List Char},
      slots ⊆ shape.slots → P draft →
      shape.elements budget slots length draft text = .ok (next, rest) → P next
  | [], _, _, _, _, _, _, hdraft, h => by
    rw [Shape.elements] at h
    obtain ⟨_, -, h⟩ := bind_eq_ok_iff.mp h
    cases h
    exact hdraft
  | slot :: slots, length, draft, next, text, rest, hsub, hdraft, h => by
    rw [Shape.elements] at h
    obtain ⟨start, -, h⟩ := bind_eq_ok_iff.mp h
    cases start with
    | none =>
      obtain ⟨_, -, h⟩ := bind_eq_ok_iff.mp h
      obtain ⟨_, -, h⟩ := bind_eq_ok_iff.mp h
      cases h
      exact hdraft
    | some start =>
      obtain ⟨⟨middle, after⟩, hmiddle, h⟩ := bind_eq_ok_iff.mp h
      obtain ⟨hslot, hslots⟩ := List.cons_subset.mp hsub
      exact preserves_elements hread hslots (hread slot hslot hdraft hmiddle) h

/-- **A record comes from a draft**, and the draft has whatever a blank one has and the reading of a
field preserves. -/
theorem exists_draft_of_record {shape : Shape Reader σ α} {P : Nat → σ → Prop} {budget : Nat}
    {text rest : List Char} {a : α} (hblank : ∀ b, P b shape.blank)
    (hread : ∀ b, ∀ slot ∈ shape.slots, ∀ {draft next text rest}, P b draft →
      slot.read draft b text = .ok (next, rest) → P b next)
    (h : record shape budget text = .ok (a, rest)) :
    ∃ b draft, budget = b + 1 ∧ P b draft ∧ shape.close draft = .ok a := by
  unfold record at h
  split at h
  · obtain ⟨b, rfl, h⟩ := enclosed_eq_ok_iff.mp h
    obtain ⟨⟨draft, after⟩, hmembers, h⟩ := bind_eq_ok_iff.mp h
    obtain ⟨a', hclose, h⟩ := bind_eq_ok_iff.mp h
    cases h
    obtain ⟨n, -, hrun⟩ := members_eq_ok_iff.mp hmembers
    exact ⟨b, draft, rfl,
      hrun.preserves (fun hs hm => Shape.preserves_member (hread b) hs hm) (hblank b), hclose⟩
  · obtain ⟨b, rfl, h⟩ := enclosed_eq_ok_iff.mp h
    obtain ⟨⟨draft, after⟩, helements, h⟩ := bind_eq_ok_iff.mp h
    obtain ⟨a', hclose, h⟩ := bind_eq_ok_iff.mp h
    cases h
    exact ⟨b, draft, rfl,
      Shape.preserves_elements (hread b) (List.Subset.refl _) (hblank b) helements, hclose⟩
  · cases h

theorem read_field_eq_ok_iff {key : String} {isOptional : Bool} {get : σ → Option β}
    {put : σ → β → σ} {reader : Reader β} {draft next : σ} {text rest : List Char} :
    (field key isOptional get put reader).read draft budget text = .ok (next, rest) ↔
      ∃ x, reader budget text = .ok (x, rest) ∧ put draft x = next :=
  mapScan_eq_ok_iff

end Text

/-! ## Records in documents -/

section Document

variable {shape : Shape Decoder σ α} {P : σ → Prop} {limit : Nat}

theorem Shape.preserves_gather
    (hread : ∀ slot ∈ shape.slots, ∀ {draft next v}, P draft → v.depth ≤ limit →
      slot.read draft v = .ok next → P next) :
    ∀ {ms : List (String × Json)} {draft next : σ}, (∀ m ∈ ms, m.2.depth ≤ limit) → P draft →
      shape.gather ms draft = .ok next → P next
  | [], _, _, _, hdraft, h => by
    cases h
    exact hdraft
  | (key, v) :: ms, draft, next, hdepths, hdraft, h => by
    obtain ⟨hdepth, hmore⟩ := List.forall_mem_cons.mp hdepths
    rw [Shape.gather] at h
    split at h
    · exact preserves_gather hread hmore hdraft h
    · next slot hslot =>
      split at h
      · cases h
      · obtain ⟨middle, hmiddle, h⟩ := bind_eq_ok_iff.mp h
        have hslot := Shape.mem_slots_of_slot? hslot
        exact preserves_gather hread hmore (hread slot hslot hdraft hdepth hmiddle) h

theorem Shape.preserves_gatherItems {leftOver : Nat → Nat → ReadError}
    (hread : ∀ slot ∈ shape.slots, ∀ {draft next v}, P draft → v.depth ≤ limit →
      slot.read draft v = .ok next → P next) :
    ∀ {slots : List (Slot Decoder σ)} {vs : List Json} {length : Nat} {draft next : σ},
      slots ⊆ shape.slots → (∀ v ∈ vs, v.depth ≤ limit) → P draft →
      shape.gatherItems leftOver slots vs length draft = .ok next → P next
  | [], [], _, _, _, _, _, hdraft, h => by
    cases h
    exact hdraft
  | [], _ :: _, _, _, _, _, _, _, h => by cases h
  | slot :: slots, [], length, draft, next, _, _, hdraft, h => by
    rw [Shape.gatherItems] at h
    obtain ⟨_, -, h⟩ := bind_eq_ok_iff.mp h
    cases h
    exact hdraft
  | slot :: slots, v :: vs, length, draft, next, hsub, hdepths, hdraft, h => by
    obtain ⟨hdepth, hmore⟩ := List.forall_mem_cons.mp hdepths
    obtain ⟨hslot, hslots⟩ := List.cons_subset.mp hsub
    rw [Shape.gatherItems] at h
    obtain ⟨middle, hmiddle, h⟩ := bind_eq_ok_iff.mp h
    exact preserves_gatherItems hread hslots hmore (hread slot hslot hdraft hdepth hmiddle) h

/-- **A record in a document comes from a draft**, and the draft has whatever a blank one has and the
decoding of a field preserves. -/
theorem exists_draft_of_decodeRecord {shape : Shape Decoder σ α} {leftOver : Nat → Nat → ReadError}
    {P : Nat → σ → Prop} {v : Json} {a : α} (hblank : ∀ limit, P limit shape.blank)
    (hread : ∀ limit, ∀ slot ∈ shape.slots, ∀ {draft next v}, P limit draft → v.depth ≤ limit →
      slot.read draft v = .ok next → P limit next)
    (h : decodeRecord shape leftOver v = .ok a) :
    ∃ limit draft, v.depth = limit + 1 ∧ P limit draft ∧ shape.close draft = .ok a := by
  unfold decodeRecord at h
  split at h
  · next ms =>
    obtain ⟨draft, hdraft, hclose⟩ := bind_eq_ok_iff.mp h
    have hdepths := depthOfMembers_le_iff.mp (Nat.le_refl (depthOfMembers ms))
    exact ⟨_, draft, rfl, Shape.preserves_gather (hread _) hdepths (hblank _) hdraft, hclose⟩
  · next vs =>
    obtain ⟨draft, hdraft, hclose⟩ := bind_eq_ok_iff.mp h
    have hdepths := depthOfItems_le_iff.mp (Nat.le_refl (depthOfItems vs))
    exact ⟨_, draft, rfl,
      Shape.preserves_gatherItems (hread _) (List.Subset.refl _) hdepths (hblank _) hdraft, hclose⟩
  · cases h

theorem read_part_eq_ok_iff {key : String} {isOptional : Bool} {get : σ → Option β}
    {put : σ → β → σ} {decoder : Decoder β} {draft next : σ} {v : Json} :
    (part key isOptional get put decoder).read draft v = .ok next ↔
      ∃ x, decoder v = .ok x ∧ put draft x = next := by
  unfold part
  dsimp only
  split
  · next x hx => rw [hx]; simp
  · next e he => rw [he]; simp

/-- A list is as deep as the array it is decoded from, when each item is as deep as what it is decoded
from, or deeper by so much. -/
theorem depth_le_of_decodeList {decoder : Decoder α} {encode : α → Json} {extra : Nat}
    (hitem : ∀ {v x}, decoder v = .ok x → (encode x).depth ≤ v.depth + extra) {v : Json} {xs : List α}
    (h : decodeList decoder v = .ok xs) : (arr (xs.map encode)).depth ≤ v.depth + extra := by
  have heach : ∀ {vs : List Json} {xs : List α}, decodeEach decoder vs = .ok xs →
      depthOfItems (xs.map encode) ≤ depthOfItems vs + extra := by
    intro vs
    induction vs with
    | nil =>
      intro xs h
      cases h
      exact Nat.zero_le _
    | cons v vs ih =>
      intro xs h
      rw [decodeEach] at h
      obtain ⟨x, hx, h⟩ := bind_eq_ok_iff.mp h
      obtain ⟨more, hmore, h⟩ := bind_eq_ok_iff.mp h
      cases h
      have hfirst := hitem hx
      have hrest := ih hmore
      rw [List.map_cons, depthOfItems, depthOfItems]
      omega
  cases v with
  | arr vs =>
    have hitems := heach h
    rw [depth, depth]
    omega
  | _ => cases h

end Document

/-! ## Tagged variants -/

/-- The fields of a tagged variant are no deeper than the budget. -/
theorem depth_le_of_tagged {typeName : String} {known : List (String × τ)} {budget : Nat}
    {text rest : List Char} {t : τ} {fields : Json}
    (h : tagged typeName known budget text = .ok ((t, fields), rest)) : fields.depth ≤ budget := by
  unfold tagged at h
  split at h
  · obtain ⟨b, rfl, h⟩ := enclosed_eq_ok_iff.mp h
    obtain ⟨⟨⟨t', reversed⟩, after⟩, hmembers, h⟩ := bind_eq_ok_iff.mp h
    obtain ⟨t'', -, h⟩ := bind_eq_ok_iff.mp h
    cases h
    obtain ⟨n, -, hrun⟩ := members_eq_ok_iff.mp hmembers
    -- The tag is not gathered; every other member is read as a document.
    have hreversed : ∀ m ∈ reversed, m.2.depth ≤ b := by
      refine hrun.preserves (P := fun s => ∀ m ∈ s.2, m.2.depth ≤ b) ?_ (List.forall_mem_nil _)
      intro s next text rest hs hm
      unfold taggedMember at hm
      obtain ⟨⟨key, after⟩, -, hm⟩ := bind_eq_ok_iff.mp hm
      dsimp only at hm
      split at hm
      · split at hm
        · cases hm
        · obtain ⟨start, -, hm⟩ := bind_eq_ok_iff.mp hm
          obtain ⟨_, -, hm⟩ := bind_eq_ok_iff.mp hm
          cases hm
          exact hs
      · obtain ⟨start, -, hm⟩ := bind_eq_ok_iff.mp hm
        obtain ⟨⟨v, rest'⟩, hv, hm⟩ := bind_eq_ok_iff.mp hm
        cases hm
        exact List.forall_mem_cons.mpr ⟨depth_le_of_tree hv, hs⟩
    refine Nat.succ_le_succ (depthOfMembers_le_iff.mpr fun m hm => ?_)
    exact hreversed m (List.mem_reverse.mp hm)
  · obtain ⟨b, rfl, h⟩ := enclosed_eq_ok_iff.mp h
    obtain ⟨start, -, h⟩ := bind_eq_ok_iff.mp h
    cases start with
    | none => cases h
    | some start =>
      obtain ⟨⟨t', after⟩, -, h⟩ := bind_eq_ok_iff.mp h
      obtain ⟨⟨vs, rest'⟩, hitems, h⟩ := bind_eq_ok_iff.mp h
      cases h
      refine Nat.succ_le_succ (depthOfItems_le_iff.mpr ?_)
      exact (items_eq_ok_iff.mp hitems).1.forall depth_le_of_tree
  · cases h

/-- The fields of a tagged variant are no deeper than the variant. -/
theorem depth_le_of_decodeTagged {typeName : String} {known : List (String × τ)} {v fields : Json}
    {t : τ} (h : decodeTagged typeName known v = .ok (t, fields)) : fields.depth ≤ v.depth := by
  have hseparate : ∀ {limit : Nat} {ms reversed : List (String × Json)} {t' : Option τ},
      (∀ m ∈ ms, m.2.depth ≤ limit) → (∀ m ∈ reversed, m.2.depth ≤ limit) →
      separate known ms t' reversed = .ok (t, fields) → fields.depth ≤ limit + 1 := by
    intro limit ms
    induction ms with
    | nil =>
      intro reversed t' _ hreversed h
      rw [separate] at h
      obtain ⟨t'', -, h⟩ := bind_eq_ok_iff.mp h
      cases h
      refine Nat.succ_le_succ (depthOfMembers_le_iff.mpr fun m hm => ?_)
      exact hreversed m (List.mem_reverse.mp hm)
    | cons m ms ih =>
      intro reversed t' hms hreversed h
      obtain ⟨key, v⟩ := m
      obtain ⟨hv, hmore⟩ := List.forall_mem_cons.mp hms
      rw [separate] at h
      split at h
      · split at h
        · cases h
        · obtain ⟨t'', -, h⟩ := bind_eq_ok_iff.mp h
          exact ih hmore hreversed h
      · exact ih hmore (List.forall_mem_cons.mpr ⟨hv, hreversed⟩) h
  cases v with
  | obj ms =>
    exact hseparate (depthOfMembers_le_iff.mp (Nat.le_refl _)) (List.forall_mem_nil _) h
  | arr vs =>
    cases vs with
    | nil => cases h
    | cons v vs =>
      rw [decodeTagged] at h
      obtain ⟨t', -, h⟩ := bind_eq_ok_iff.mp h
      cases h
      exact Nat.succ_le_succ (Nat.le_max_right _ _)
  | _ => cases h

/-! ## Maps -/

/-- The values of a map have been read with what its brace leaves of the budget. -/
theorem exists_of_wordMap {item : Reader α} {P : Nat → α → Prop} {budget : Nat}
    {text rest : List Char} {m : SortedMap UInt64 α}
    (hitem : ∀ b {text x rest}, item b text = .ok (x, rest) → P b x)
    (h : wordMap item budget text = .ok (m, rest)) :
    ∃ b, budget = b + 1 ∧ ∀ e ∈ m.entries, P b e.2 := by
  unfold wordMap at h
  split at h
  · obtain ⟨b, rfl, h⟩ := enclosed_eq_ok_iff.mp h
    obtain ⟨n, -, hrun⟩ := members_eq_ok_iff.mp h
    refine ⟨b, rfl, ?_⟩
    refine hrun.preserves (P := fun m => ∀ e ∈ m.entries, P b e.2) ?_ (List.forall_mem_nil _)
    intro m next text rest hm hmember
    obtain ⟨⟨key, after⟩, -, hmember⟩ := bind_eq_ok_iff.mp hmember
    obtain ⟨start, -, hmember⟩ := bind_eq_ok_iff.mp hmember
    obtain ⟨⟨x, rest'⟩, hx, hmember⟩ := bind_eq_ok_iff.mp hmember
    cases hmember
    intro e he
    rcases mem_insertEntry he with rfl | he
    · exact hitem b hx
    · exact hm e he
  · cases h

end OperatorModes.Json
