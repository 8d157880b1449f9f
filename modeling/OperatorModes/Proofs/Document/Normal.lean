import OperatorModes.Proofs.Document.Tolerance
import OperatorModes.Proofs.Json.Draft

/-!
# Inputs printed again

An input that has been accepted is printed in full: payloads that its text left out are written as
empty ones. That takes an object and an array where there was nothing, so a document can become deeper
by being read and printed, and at the limit it is no longer accepted (`not_ofDocument_compact`).

How much deeper is a matter of what can be decoded at all, in whatever form it was written. A payload
has no default inside it and is never deeper than its document (`Payload.depth_le_of_decodeWithin`);
an effect is deeper by at most the two levels of an empty payload, however many arrows are around the
footprint (`Effect.depth_le_of_decodeWithin`); and what encloses the effects is always written at the
same depth:

> `CheckInput.depth_le_of_read`: an input that was read with a budget of `n` levels is printed with at
> most `n + 2`, or five.

Below a limit of 125 levels nothing is lost, then, and above it the depth of the printed document
decides (`CheckInput.ofDocument_compact`).
-/

namespace OperatorModes

open Json

/-! ## Payloads -/

namespace Payload

theorem depth_toJson_names (vars : NameSet) : (names vars).toJson.depth = 2 := by
  have hvars : depthOfItems (vars.toList.map .str) ≤ 0 :=
    depthOfItems_map_le (fun _ => Nat.le_refl 0) _
  show max 0 (max (depthOfItems (vars.toList.map .str) + 1) 0) + 1 = 2
  omega

theorem depth_le_of_names {member : Decoder Payload} {fields : Json} {p : Payload}
    (h : ofFields member .concrete fields = .ok p) : p.toJson.depth ≤ fields.depth := by
  have hread : ∀ limit, ∀ slot ∈ namesShape.slots, ∀ {draft next : Option (List String)} {v : Json},
      (∀ vars ∈ draft, (arr (vars.map .str)).depth ≤ limit) → v.depth ≤ limit →
      slot.read draft v = .ok next → ∀ vars ∈ next, (arr (vars.map .str)).depth ≤ limit := by
    intro limit
    refine List.forall_mem_singleton.mpr ?_
    intro draft next v _ hv hread
    obtain ⟨vars, hvars, rfl⟩ := read_part_eq_ok_iff.mp hread
    rintro _ ⟨⟩
    have hdepth : (arr (vars.map .str)).depth ≤ v.depth + 0 :=
      depth_le_of_decodeList (fun _ => Nat.zero_le _) hvars
    exact Nat.le_trans hdepth hv
  obtain ⟨limit, draft, hdepth, hdraft, hclose⟩ :=
    exists_draft_of_decodeRecord
      (P := fun limit draft => ∀ vars ∈ draft, (arr (vars.map .str)).depth ≤ limit)
      (fun _ => nofun) hread h
  obtain ⟨vars, hvars, hp⟩ := bind_eq_ok_iff.mp hclose
  cases draft with
  | none => cases hvars
  | some vars' =>
    cases hp
    have harr := hdraft vars' rfl
    rw [depth] at harr
    rw [hdepth, of, depth_toJson_names]
    omega

theorem depth_le_of_union {member : Decoder Payload}
    (hmember : ∀ {v p}, member v = .ok p → p.toJson.depth ≤ v.depth) {fields : Json} {p : Payload}
    (h : ofFields member .union fields = .ok p) : p.toJson.depth ≤ fields.depth := by
  have hread : ∀ limit, ∀ slot ∈ (unionShape member).slots,
      ∀ {draft next : Option (List Payload)} {v : Json},
      (∀ ps ∈ draft, (arr (ps.map toJson)).depth ≤ limit) → v.depth ≤ limit →
      slot.read draft v = .ok next → ∀ ps ∈ next, (arr (ps.map toJson)).depth ≤ limit := by
    intro limit
    refine List.forall_mem_singleton.mpr ?_
    intro draft next v _ hv hread
    obtain ⟨ps, hps, rfl⟩ := read_part_eq_ok_iff.mp hread
    rintro _ ⟨⟩
    have hdepth : (arr (ps.map toJson)).depth ≤ v.depth + 0 := depth_le_of_decodeList hmember hps
    exact Nat.le_trans hdepth hv
  obtain ⟨limit, draft, hdepth, hdraft, hclose⟩ :=
    exists_draft_of_decodeRecord
      (P := fun limit draft => ∀ ps ∈ draft, (arr (ps.map toJson)).depth ≤ limit)
      (fun _ => nofun) hread h
  obtain ⟨ps, hps, hp⟩ := bind_eq_ok_iff.mp hclose
  cases draft with
  | none => cases hps
  | some ps' =>
    cases hps
    cases hp
    have harr := hdraft ps rfl
    rw [depth] at harr
    rw [hdepth, depth_toJson_union, toJsonAll_eq_map]
    omega

/-- Nothing deeper than a document is decoded from it as a payload. -/
theorem depth_le_of_decodeWithin :
    ∀ {fuel : Nat} {v : Json} {p : Payload}, decodeWithin fuel v = .ok p →
      p.toJson.depth ≤ v.depth := by
  intro fuel
  induction fuel with
  | zero => exact nofun
  | succ fuel ih =>
    intro v p h
    rw [decodeWithin] at h
    obtain ⟨⟨kind, fields⟩, htag, h⟩ := bind_eq_ok_iff.mp h
    refine Nat.le_trans ?_ (depth_le_of_decodeTagged htag)
    cases kind with
    | concrete => exact depth_le_of_names h
    | union => exact depth_le_of_union ih h

end Payload

/-! ## Effects -/

namespace Effect

theorem depth_toJson_leaf (f : Footprint) :
    (leaf f).toJson.depth
      = max f.reads.toJson.depth (max f.updates.toJson.depth f.temporal.toJson.depth) + 1 := by
  show max 0 (max f.reads.toJson.depth (max f.updates.toJson.depth
    (max f.temporal.toJson.depth 0))) + 1 = _
  omega

/-- What a footprint leaves out is at most two levels deep. -/
theorem depth_le_of_leaf {inner : Decoder Effect} {fields : Json} {e : Effect}
    (h : ofFields inner .concrete fields = .ok e) : e.toJson.depth ≤ fields.depth + 2 := by
  let P (limit : Nat) (d : LeafDraft) : Prop :=
    (∀ p ∈ d.reads, p.toJson.depth ≤ limit) ∧ (∀ p ∈ d.updates, p.toJson.depth ≤ limit) ∧
      ∀ p ∈ d.temporal, p.toJson.depth ≤ limit
  have hread : ∀ limit, ∀ slot ∈ leafShape.slots, ∀ {draft next : LeafDraft} {v : Json},
      P limit draft → v.depth ≤ limit → slot.read draft v = .ok next → P limit next := by
    intro limit
    have hpayload : ∀ {v : Json} {p : Payload}, v.depth ≤ limit → Payload.decode v = .ok p →
        ∀ q ∈ some p, q.toJson.depth ≤ limit := by
      rintro v p hv hp _ ⟨⟩
      exact Nat.le_trans (Payload.depth_le_of_decodeWithin hp) hv
    simp only [leafShape, List.forall_mem_cons]
    refine ⟨?_, ?_, ?_, List.forall_mem_nil _⟩ <;>
      rintro draft next v ⟨hreads, hupdates, htemporal⟩ hv hread <;>
      obtain ⟨p, hp, rfl⟩ := read_part_eq_ok_iff.mp hread
    · exact ⟨hpayload hv hp, hupdates, htemporal⟩
    · exact ⟨hreads, hpayload hv hp, htemporal⟩
    · exact ⟨hreads, hupdates, hpayload hv hp⟩
  have hblank : ∀ limit, P limit leafShape.blank := by
    intro limit
    refine ⟨?_, ?_, ?_⟩ <;> rintro _ ⟨⟩
  obtain ⟨limit, draft, hdepth, ⟨hreads, hupdates, htemporal⟩, hclose⟩ :=
    exists_draft_of_decodeRecord hblank hread h
  have hgetD : ∀ {o : Option Payload}, (∀ p ∈ o, p.toJson.depth ≤ limit) →
      (o.getD .empty).toJson.depth ≤ limit + 2 := by
    intro o ho
    cases o with
    | none => exact Nat.le_add_left 2 limit
    | some p => exact Nat.le_trans (ho p rfl) (Nat.le_add_right limit 2)
  cases hclose
  have := hgetD hreads
  have := hgetD hupdates
  have := hgetD htemporal
  rw [hdepth, depth_toJson_leaf]
  dsimp only
  omega

theorem depth_le_of_arrow {inner : Decoder Effect}
    (hinner : ∀ {v e}, inner v = .ok e → e.toJson.depth ≤ v.depth + 2) {fields : Json} {e : Effect}
    (h : ofFields inner .arrow fields = .ok e) : e.toJson.depth ≤ fields.depth + 2 := by
  -- Parameters are decoded from an array and printed as one, so both are a level further down.
  let P (limit : Nat) (d : ArrowDraft) : Prop :=
    (∀ es ∈ d.params, (arr (es.map toJson)).depth ≤ limit + 2) ∧
      ∀ r ∈ d.result, r.toJson.depth ≤ limit + 2
  have hread : ∀ limit, ∀ slot ∈ (arrowShape inner).slots, ∀ {draft next : ArrowDraft} {v : Json},
      P limit draft → v.depth ≤ limit → slot.read draft v = .ok next → P limit next := by
    intro limit
    simp only [arrowShape, List.forall_mem_cons]
    refine ⟨?_, ?_, List.forall_mem_nil _⟩ <;>
      rintro draft next v ⟨hparams, hresult⟩ hv hread <;>
      obtain ⟨x, hx, rfl⟩ := read_part_eq_ok_iff.mp hread
    · refine ⟨?_, hresult⟩
      rintro _ ⟨⟩
      exact Nat.le_trans (depth_le_of_decodeList hinner hx) (Nat.add_le_add_right hv 2)
    · refine ⟨hparams, ?_⟩
      rintro _ ⟨⟩
      exact Nat.le_trans (hinner hx) (Nat.add_le_add_right hv 2)
  have hblank : ∀ limit, P limit (arrowShape inner).blank := by
    intro limit
    refine ⟨?_, ?_⟩ <;> rintro _ ⟨⟩
  obtain ⟨limit, draft, hdepth, ⟨hparams, hresult⟩, hclose⟩ :=
    exists_draft_of_decodeRecord hblank hread h
  obtain ⟨params, result⟩ := draft
  obtain ⟨ps, hps, hclose⟩ := bind_eq_ok_iff.mp hclose
  obtain ⟨r, hr, hclose⟩ := bind_eq_ok_iff.mp hclose
  cases params with
  | none => cases hps
  | some params =>
    cases result with
    | none => cases hr
    | some result =>
      cases hps
      cases hr
      cases hclose
      have hps := hparams ps rfl
      have hr := hresult r rfl
      rw [depth] at hps
      rw [hdepth, depth_toJson_arrow, toJsonAll_eq_map]
      omega

theorem depth_le_of_ofFields {inner : Decoder Effect}
    (hinner : ∀ {v e}, inner v = .ok e → e.toJson.depth ≤ v.depth + 2) {kind : Kind} {fields : Json}
    {e : Effect} (h : ofFields inner kind fields = .ok e) : e.toJson.depth ≤ fields.depth + 2 := by
  cases kind with
  | concrete => exact depth_le_of_leaf h
  | arrow => exact depth_le_of_arrow hinner h

theorem depth_le_of_decodeWithin :
    ∀ {fuel : Nat} {v : Json} {e : Effect}, decodeWithin fuel v = .ok e →
      e.toJson.depth ≤ v.depth + 2 := by
  intro fuel
  induction fuel with
  | zero => exact nofun
  | succ fuel ih =>
    intro v e h
    rw [decodeWithin] at h
    obtain ⟨⟨kind, fields⟩, htag, h⟩ := bind_eq_ok_iff.mp h
    exact Nat.le_trans (depth_le_of_ofFields ih h)
      (Nat.add_le_add_right (depth_le_of_decodeTagged htag) 2)

/-- **An effect is at most two levels deeper than its text.** -/
theorem depth_le_of_read {budget : Nat} {text rest : List Char} {e : Effect}
    (h : read budget text = .ok (e, rest)) : e.toJson.depth ≤ budget + 2 := by
  obtain ⟨⟨⟨kind, fields⟩, after⟩, htag, h⟩ := bind_eq_ok_iff.mp h
  obtain ⟨e', he, h⟩ := bind_eq_ok_iff.mp h
  cases h
  exact Nat.le_trans (depth_le_of_ofFields depth_le_of_decodeWithin he)
    (Nat.add_le_add_right (depth_le_of_tagged htag) 2)

end Effect

/-! ## Modules and inputs -/

theorem Definition.depth_toJson_le (d : Definition) : d.toJson.depth ≤ 2 := by
  obtain ⟨id, name, qualifier, span⟩ := d
  cases span with
  | none => exact Nat.le_succ 1
  | some span => exact Nat.le_refl 2

theorem Module.depth_toJson_le (m : Module) : m.toJson.depth ≤ 4 := by
  have hdefinitions : depthOfItems (m.definitions.map Definition.toJson) ≤ 2 :=
    depthOfItems_map_le Definition.depth_toJson_le _
  show max 0 (max (depthOfItems (m.definitions.map Definition.toJson) + 1) 0) + 1 ≤ 4
  omega

namespace CheckInput

theorem depth_toJson (x : CheckInput) :
    x.toJson.depth = max x.module.toJson.depth (x.effects.toJson Effect.toJson).depth + 1 := by
  show max x.module.toJson.depth (max (x.effects.toJson Effect.toJson).depth 0) + 1 = _
  omega

/-- **An input is at most two levels deeper than its text**, or five levels deep. -/
theorem depth_le_of_read {budget : Nat} {text rest : List Char} {x : CheckInput}
    (h : read budget text = .ok (x, rest)) : x.toJson.depth ≤ max 5 (budget + 2) := by
  let P (b : Nat) (d : Draft) : Prop :=
    ∀ effects ∈ d.effects, (effects.toJson Effect.toJson).depth ≤ b + 2
  have hread : ∀ b, ∀ slot ∈ shape.slots, ∀ {draft next : Draft} {text rest : List Char},
      P b draft → slot.read draft b text = .ok (next, rest) → P b next := by
    intro b
    simp only [shape, List.forall_mem_cons]
    refine ⟨?_, ?_, List.forall_mem_nil _⟩ <;> intro draft next text rest hdraft hread <;>
      obtain ⟨y, hy, rfl⟩ := read_field_eq_ok_iff.mp hread
    · exact hdraft
    · rintro _ ⟨⟩
      obtain ⟨b, rfl, hentries⟩ := exists_of_wordMap (P := fun b e => e.toJson.depth ≤ b + 2)
        (fun b {_ _ _} => Effect.depth_le_of_read) hy
      refine Nat.succ_le_succ (depthOfMembers_le_iff.mpr fun m hm => ?_)
      obtain ⟨e, he, rfl⟩ := List.mem_map.mp hm
      exact hentries e he
  have hblank : ∀ b, P b shape.blank := by rintro b _ ⟨⟩
  obtain ⟨b, ⟨module, effects⟩, rfl, hdraft, hclose⟩ := exists_draft_of_record hblank hread h
  obtain ⟨m, hm, hclose⟩ := bind_eq_ok_iff.mp hclose
  cases hclose
  have hmodule := m.depth_toJson_le
  rw [depth_toJson]
  cases effects with
  | none =>
    have hnone : (SortedMap.toJson Effect.toJson .empty).depth = 1 := rfl
    dsimp only [Option.getD_none]
    omega
  | some effects =>
    have heffects := hdraft effects rfl
    dsimp only [Option.getD_some]
    omega

/-- **An accepted input, printed again.** It is read as the same input if it has become at most 127
levels deep, and is refused as too deep if it has become deeper; it never is deeper than 129 levels.
An input that is accepted even when only 125 levels are allowed is always accepted again. -/
theorem ofDocument_compact {document : String} {x : CheckInput} (h : ofDocument document = .ok x) :
    (x.toJson.depth ≤ 127 → ofDocument x.toJson.compact = .ok x) ∧
      (128 ≤ x.toJson.depth → ofDocument x.toJson.compact = .error .tooDeep) ∧
      x.toJson.depth ≤ 129 ∧
      ∀ rest, read 125 document.toList = .ok (x, rest) → ofDocument x.toJson.compact = .ok x := by
  -- The printed document alone decides, and the text it came from bounds how deep that is.
  obtain ⟨rest, hread, -⟩ := readAll_eq_ok_iff.mp h
  obtain ⟨haccepted, hrefused⟩ := roundTrips_of_reads reads_toJson x
  exact ⟨haccepted, hrefused, depth_le_of_read hread,
    fun _ hread => haccepted (depth_le_of_read hread)⟩

end CheckInput

/-! ## Arrows at the limit -/

namespace Effect

/-- Arrows without parameters, one in the result of another, around the effect that touches
nothing. -/
def nested : Nat → Effect
  | 0 => leaf {}
  | n + 1 => arrow [] (nested n)

/-- The same, written without the payloads. -/
def nestedBare : Nat → Written
  | 0 => bare
  | n + 1 =>
    .obj [("kind", .plain (.str "arrow") (.str _)), ("params", .arr []), ("result", nestedBare n)]

theorem writtenAs_nestedBare : ∀ n, (nested n).WrittenAs (nestedBare n)
  | 0 => writtenAs_bare
  | n + 1 => by
    refine writtenAs_iff.mpr (Or.inr ⟨_, rfl, ?_, ?_, ?_⟩)
    · simp [nested, kind, Kind.name, writtenFields, WrittenAsAll, writtenAs_nestedBare n]
    · simp
    · simp [nested, writtenFields]

theorem depth_nested : ∀ n, (nested n).toJson.depth = n + 3
  | 0 => rfl
  | n + 1 => by
    have hnone : depthOfItems (toJsonAll []) = 0 := rfl
    rw [nested, depth_toJson_arrow, depth_nested n, hnone]
    omega

theorem depth_nestedBare : ∀ n, (nestedBare n).value.depth = n + 1
  | 0 => rfl
  | n + 1 => by
    show max 0 (max 1 (max (nestedBare n).value.depth 0)) + 1 = _
    rw [depth_nestedBare n]
    omega

end Effect

namespace CheckInput

/-- Nested arrows for an operator that no module defines. -/
def nested (n : Nat) : CheckInput where
  module := { name := "m" }
  effects := .ofList [(1, Effect.nested n)]

/-- The same, written without the payloads. -/
def nestedBare (n : Nat) : Written :=
  .obj [("module", .plain (nested n).module.toJson (nested n).module.integral_toJson),
    ("effects", .obj [("1", Effect.nestedBare n)])]

theorem writtenAs_nestedBare (n : Nat) : (nested n).WrittenAs (nestedBare n) := by
  have hkey : "1" = toString (1 : DefinitionId).toNat := by rfl
  have heffects : EffectMap.WrittenAs (nested n).effects (.obj [("1", Effect.nestedBare n)]) :=
    ⟨_, [(1, Effect.nested n)], rfl, .refl _,
      .cons ⟨hkey, Effect.writtenAs_nestedBare n⟩ .nil⟩
  refine Or.inr ⟨_, rfl, ?_, ?_, ?_⟩
  · simp [writtenFields, heffects, Module.WrittenAs, Written.Spells]
  · simp [writtenFields]
  · simp [writtenFields]

theorem depth_nested (n : Nat) : (nested n).toJson.depth = n + 5 := by
  have hmodule : (nested n).module.toJson.depth = 2 := rfl
  have heffects : ((nested n).effects.toJson Effect.toJson).depth
      = max (Effect.nested n).toJson.depth 0 + 1 := rfl
  rw [depth_toJson, hmodule, heffects, Effect.depth_nested]
  omega

theorem depth_nestedBare (n : Nat) : (nestedBare n).value.depth = n + 3 := by
  show max 2 (max (max (Effect.nestedBare n).value.depth 0 + 1) 0) + 1 = _
  rw [Effect.depth_nestedBare]
  omega

theorem ofDocument_nestedBare {n : Nat} (h : n ≤ 124) :
    ofDocument (nestedBare n).text = .ok (nested n) := by
  refine readAll_text (takes _ _ (writtenAs_nestedBare n)) ?_
  rw [depth_nestedBare]
  exact Nat.add_le_add_right h 3

/-- **Not every accepted input is accepted again**: what is left out near the limit is printed, and
goes beyond it. -/
theorem not_ofDocument_compact :
    ¬∀ (document : String) (x : CheckInput), ofDocument document = .ok x →
      ofDocument x.toJson.compact = .ok x := by
  intro h
  have haccepted := h _ _ (ofDocument_nestedBare (n := 123) (by decide))
  have hdepth := depth_nested 123
  have hrefused := (roundTrips_of_reads reads_toJson (nested 123)).2 (Nat.le_of_eq hdepth.symm)
  cases haccepted.symm.trans hrefused

/-- The last that is accepted again, and the last that is accepted. -/
theorem ofDocument_compact_nested :
    (ofDocument (nestedBare 122).text = .ok (nested 122) ∧
      ofDocument (nested 122).toJson.compact = .ok (nested 122)) ∧
    (ofDocument (nestedBare 124).text = .ok (nested 124) ∧
      ofDocument (nested 124).toJson.compact = .error .tooDeep) := by
  have hlast := ofDocument_nestedBare (n := 122) (by decide)
  have hbeyond := ofDocument_nestedBare (n := 124) (by decide)
  obtain ⟨rest, -, hread⟩ := takes _ _ (writtenAs_nestedBare 122) 125 []
    (Nat.le_of_eq (depth_nestedBare 122)) trivial
  rw [← String.toList_ofList (l := (nestedBare 122).before [])] at hread
  exact ⟨⟨hlast, (ofDocument_compact hlast).2.2.2 rest hread⟩,
    hbeyond, (ofDocument_compact hbeyond).2.1 (by rw [depth_nested]; decide)⟩

end CheckInput

end OperatorModes
