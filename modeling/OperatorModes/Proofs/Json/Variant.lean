import OperatorModes.Json.Variant
import OperatorModes.Proofs.Json.Record

/-!
# Variants read back

A plain variant is read back from its name. Of a tagged variant the object is read first, with the
fields as plain documents, so what is read back is which variant it is and the object of its fields
as they stand (`reads_tagged`); decoding a document separates the two in the same way
(`decodeTagged_obj`).
-/

namespace OperatorModes.Json

variable {τ : Type}

theorem pick_eq_ok_iff {known : List (String × τ)} {name : String} {t : τ} :
    pick known name = .ok t ↔ lookupEntry name known = some t := by
  rw [pick]
  cases lookupEntry name known with
  | none => exact iff_of_false nofun nofun
  | some t' => rw [Except.ok.injEq, Option.some.injEq]

theorem reads_variant {known : List (String × τ)} {name : String} {t : τ}
    (h : lookupEntry name known = some t) : Reads (variant known) (.str name) t := by
  intro budget rest _
  show (string (escapedBefore name rest) >>= _) = _
  rw [string_escapedBefore]
  show (pick known name >>= _) = _
  rw [pick_eq_ok_iff.mpr h]
  rfl

/-! ## Tagged variants -/

/-- The fields of a tagged variant are gathered as they stand. -/
theorem gathers_taggedMember {known : List (String × τ)} {budget : Nat} {t : Option τ} :
    ∀ {ms : List (String × Json)} (before : List (String × Json)),
      (∀ m ∈ ms, m.1 ≠ tagKey ∧ Integral m.2) →
      Gathers (taggedMember known budget) budget ms (t, before) (t, ms.reverse ++ before)
  | [], before, _ => .nil (t, before)
  | (key, v) :: ms, before, h => by
    rw [List.reverse_cons, List.append_assoc]
    refine .cons ?_
      (gathers_taggedMember ((key, v) :: before) fun m hm => h m (List.mem_cons_of_mem _ hm))
    intro rest hstops
    obtain ⟨hkey, hv⟩ := h (key, v) List.mem_cons_self
    show (string (memberBefore key v rest) >>= _) = _
    rw [string_memberBefore]
    show (if key = tagKey then _ else _) = _
    rw [if_neg hkey]
    show (tree budget (v.before rest) >>= _) = _
    rw [reads_tree hv budget rest hstops]
    exact bind_within_ok rfl

theorem taggedMember_tag {known : List (String × τ)} {name : String} {t : τ}
    (h : lookupEntry name known = some t) (budget : Nat) (before : List (String × Json))
    (rest : List Char) :
    taggedMember known budget (none, before) (memberBefore tagKey (.str name) rest)
      = .ok ((some t, before), rest) := by
  show (string (memberBefore tagKey _ rest) >>= _) = _
  rw [string_memberBefore]
  show (string (escapedBefore name rest) >>= _) >>= _ = _
  rw [string_escapedBefore]
  show (pick known name >>= _) >>= _ = _
  rw [pick_eq_ok_iff.mpr h]
  rfl

/-- **A tagged variant is read as the variant its tag names and the object of its fields.** -/
theorem reads_tagged {known : List (String × τ)} {name : String} {t : τ}
    {fields : List (String × Json)} (hname : lookupEntry name known = some t)
    (hfields : ∀ m ∈ fields, m.1 ≠ tagKey ∧ Integral m.2) (typeName : String) :
    Reads (tagged typeName known) (.obj ((tagKey, .str name) :: fields)) (t, .obj fields) := by
  intro budget rest _
  show enclosed budget _ = _
  refine enclosed_within (fun b => ?_) budget
  have hgathers : Gathers (taggedMember known b) b ((tagKey, .str name) :: fields) (none, [])
      (some t, fields.reverse ++ []) := by
    refine .cons ?_ (gathers_taggedMember [] hfields)
    intro rest _
    exact (taggedMember_tag hname b [] rest).trans (within_zero b _).symm
  rw [members_membersBefore hgathers rest]
  refine bind_within_ok ?_
  dsimp only
  rw [List.append_nil, List.reverse_reverse]
  rfl

theorem separate_append {known : List (String × τ)} :
    ∀ {ms : List (String × Json)} {rest reversed : List (String × Json)},
      (∀ m ∈ ms, m.1 ≠ tagKey) → ∀ t : Option τ,
      separate known (ms ++ rest) t reversed = separate known rest t (ms.reverse ++ reversed)
  | [], _, _, _, _ => rfl
  | (key, v) :: ms, rest, reversed, h, t => by
    obtain ⟨hkey, hmore⟩ := List.forall_mem_cons.mp h
    rw [List.cons_append, separate, if_neg hkey, separate_append hmore, List.reverse_cons,
      List.append_assoc, List.singleton_append]

theorem separate_fields {known : List (String × τ)} {t : τ} {ms : List (String × Json)}
    (reversed : List (String × Json)) (h : ∀ m ∈ ms, m.1 ≠ tagKey) :
    separate known ms (some t) reversed = .ok (t, obj (reversed.reverse ++ ms)) := by
  have hmore : separate known (ms ++ []) (some t) reversed
      = separate known [] (some t) (ms.reverse ++ reversed) := separate_append h _
  rw [List.append_nil] at hmore
  rw [hmore]
  show Except.ok (t, obj (ms.reverse ++ reversed).reverse) = _
  rw [List.reverse_append, List.reverse_reverse]

theorem decodeTagged_obj {known : List (String × τ)} {name : String} {t : τ}
    {fields : List (String × Json)} (hname : lookupEntry name known = some t)
    (hfields : ∀ m ∈ fields, m.1 ≠ tagKey) (typeName : String) :
    decodeTagged typeName known (.obj ((tagKey, .str name) :: fields)) = .ok (t, .obj fields) := by
  have htag : decodeTag known (.str name) = .ok t := pick_eq_ok_iff.mpr hname
  rw [decodeTagged, separate, if_pos rfl, htag]
  exact separate_fields [] hfields

end OperatorModes.Json
