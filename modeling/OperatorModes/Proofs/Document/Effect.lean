import OperatorModes.Document.Effect
import OperatorModes.Proofs.Json.Variant
import OperatorModes.Proofs.Payload

/-!
# Payloads and effects read back

A payload and an effect is each an object of its kind and the fields of the kind (`toJson_eq`). The
object is read from text whole, within the budget; the fields are then decoded from the documents
that were read, where fuel takes the place of the budget. Every level of nesting is at least one
level of the document, so a fuel above the depth is enough (`decodeWithin_toJson`), and what is left
is that decoding undoes writing, by induction over the tree:

> `Payload.reads_toJson`: `Reads read p.toJson p`
> `Effect.reads_toJson`: `Reads read e.toJson e`
-/

namespace OperatorModes

/-- Induction over an effect: an arrow by its result and all its parameters at once. -/
theorem Effect.induct {motive : Effect → Prop} (leaf : ∀ f, motive (leaf f))
    (arrow : ∀ params result, (∀ e ∈ params, motive e) → motive result →
      motive (arrow params result)) : ∀ e, motive e
  | .leaf f => leaf f
  | .arrow params result =>
    arrow params result (fun e _ => induct leaf arrow e) (induct leaf arrow result)

open Json

/-! ## Payloads -/

namespace Payload

theorem toJsonAll_eq_map (ps : List Payload) : toJsonAll ps = ps.map toJson := by
  induction ps with
  | nil => rfl
  | cons p ps ih => rw [toJsonAll, ih, List.map_cons]

/-- Which kind of payload it is. -/
def kind : Payload → Kind
  | names _ => .concrete
  | union _ => .union

/-- What stands beside the kind. -/
def fields : Payload → List (String × Json)
  | names vars => [("vars", .arr (vars.toList.map .str))]
  | union members => [("variables", .arr (toJsonAll members))]

/-- The name of a kind. -/
def Kind.name : Kind → String
  | concrete => "concrete"
  | union => "union"

theorem lookup_name (k : Kind) : lookupEntry k.name Kind.known = some k := by
  cases k <;> rfl

theorem toJson_eq (p : Payload) : p.toJson = .obj ((tagKey, .str p.kind.name) :: p.fields) := by
  cases p <;> rfl

theorem fields_ne_tagKey (p : Payload) : ∀ m ∈ p.fields, m.1 ≠ tagKey := by
  have hnames : ∀ k ∈ ["vars"], k ≠ tagKey := by decide
  have hunion : ∀ k ∈ ["variables"], k ≠ tagKey := by decide
  intro m hm
  cases p with
  | names vars => exact hnames m.1 (List.mem_map_of_mem (f := Prod.fst) hm)
  | union members => exact hunion m.1 (List.mem_map_of_mem (f := Prod.fst) hm)

theorem integral_toJson (p : Payload) : Integral p.toJson := by
  induction p using Payload.induct with
  | names vars =>
    refine .obj (List.forall_mem_cons.mpr ⟨.str _, List.forall_mem_singleton.mpr ?_⟩)
    exact integral_arr_map fun s _ => .str s
  | union members ih =>
    refine .obj (List.forall_mem_cons.mpr ⟨.str _, List.forall_mem_singleton.mpr ?_⟩)
    rw [toJsonAll_eq_map]
    exact integral_arr_map ih

theorem fields_plain (p : Payload) : ∀ m ∈ p.fields, m.1 ≠ tagKey ∧ Integral m.2 := by
  have hp := p.integral_toJson
  rw [toJson_eq] at hp
  intro m hm
  exact ⟨p.fields_ne_tagKey m hm, hp.members m (List.mem_cons_of_mem _ hm)⟩

theorem decodeList_text (names : List String) :
    decodeList decodeText (.arr (names.map .str)) = .ok names :=
  decodeEach_map fun _ _ => rfl

theorem ofFields_names (member : Decoder Payload) (vars : NameSet) :
    ofFields member .concrete (.obj (names vars).fields) = .ok (names vars) := by
  have hread : namesShape.gather (names vars).fields none = .ok (some vars.toList) :=
    Shape.gather_cons rfl rfl (read_part (decodeList_text vars.toList) none) rfl
  rw [ofFields]
  refine decodeRecord_obj hread ?_
  show Except.ok (names (.ofList vars.toList)) = _
  rw [NameSet.ofList_toList]

theorem ofFields_union {member : Decoder Payload} {members : List Payload}
    (h : ∀ p ∈ members, member p.toJson = .ok p) :
    ofFields member .union (.obj (union members).fields) = .ok (union members) := by
  have hlist : decodeList member (.arr (toJsonAll members)) = .ok members := by
    rw [toJsonAll_eq_map]
    exact decodeEach_map h
  have hread : (unionShape member).gather (union members).fields none = .ok (some members) :=
    Shape.gather_cons rfl rfl (read_part hlist none) rfl
  rw [ofFields]
  exact decodeRecord_obj hread rfl

/-- A union adds the array of its members and the object around it. -/
theorem depth_toJson_union (members : List Payload) :
    (union members).toJson.depth = depthOfItems (toJsonAll members) + 2 := by
  show max 0 (max (depthOfItems (toJsonAll members) + 1) 0) + 1 = _
  omega

theorem decodeWithin_of_fields {p : Payload} {fuel : Nat}
    (h : ofFields (decodeWithin fuel) p.kind (.obj p.fields) = .ok p) :
    decodeWithin (fuel + 1) p.toJson = .ok p := by
  rw [toJson_eq, decodeWithin, decodeTagged_obj (lookup_name p.kind) p.fields_ne_tagKey]
  exact h

theorem decodeWithin_toJson (p : Payload) :
    ∀ fuel, p.toJson.depth < fuel → decodeWithin fuel p.toJson = .ok p := by
  induction p using Payload.induct with
  | names vars =>
    intro fuel hlt
    obtain ⟨fuel, rfl⟩ : ∃ n, fuel = n + 1 := ⟨fuel - 1, by omega⟩
    exact decodeWithin_of_fields (ofFields_names _ vars)
  | union members ih =>
    intro fuel hlt
    obtain ⟨fuel, rfl⟩ : ∃ n, fuel = n + 1 := ⟨fuel - 1, by omega⟩
    -- A member costs the document two levels, the fuel only one.
    rw [depth_toJson_union, toJsonAll_eq_map] at hlt
    refine decodeWithin_of_fields (ofFields_union fun p hp => ih p hp fuel ?_)
    have hdepth : p.toJson.depth ≤ depthOfItems (members.map toJson) := depth_le_of_mem_map hp
    omega

theorem decode_toJson (p : Payload) : decode p.toJson = .ok p :=
  decodeWithin_toJson p _ (Nat.lt_succ_self _)

theorem ofFields_decode (p : Payload) : ofFields decode p.kind (.obj p.fields) = .ok p := by
  cases p with
  | names vars => exact ofFields_names decode vars
  | union members => exact ofFields_union fun p _ => decode_toJson p

/-- **A payload is read back.** -/
theorem reads_toJson (p : Payload) : Reads read p.toJson p := by
  rw [toJson_eq]
  exact (reads_tagged (lookup_name p.kind) p.fields_plain "VariablesEffect").decode
    (f := fun r => ofFields decode r.1 r.2) p.ofFields_decode

end Payload

/-! ## Effects -/

namespace Effect

theorem toJsonAll_eq_map (es : List Effect) : toJsonAll es = es.map toJson := by
  induction es with
  | nil => rfl
  | cons e es ih => rw [toJsonAll, ih, List.map_cons]

/-- Which kind of effect it is. -/
def kind : Effect → Kind
  | leaf _ => .concrete
  | arrow _ _ => .arrow

/-- What stands beside the kind. -/
def fields : Effect → List (String × Json)
  | leaf f =>
    [("read", f.reads.toJson), ("update", f.updates.toJson), ("temporal", f.temporal.toJson)]
  | arrow params result => [("params", .arr (toJsonAll params)), ("result", result.toJson)]

/-- The name of a kind. -/
def Kind.name : Kind → String
  | concrete => "concrete"
  | arrow => "arrow"

theorem lookup_name (k : Kind) : lookupEntry k.name Kind.known = some k := by
  cases k <;> rfl

theorem toJson_eq (e : Effect) : e.toJson = .obj ((tagKey, .str e.kind.name) :: e.fields) := by
  cases e <;> rfl

theorem fields_ne_tagKey (e : Effect) : ∀ m ∈ e.fields, m.1 ≠ tagKey := by
  have hleaf : ∀ k ∈ ["read", "update", "temporal"], k ≠ tagKey := by decide
  have harrow : ∀ k ∈ ["params", "result"], k ≠ tagKey := by decide
  intro m hm
  cases e with
  | leaf f => exact hleaf m.1 (List.mem_map_of_mem (f := Prod.fst) hm)
  | arrow params result => exact harrow m.1 (List.mem_map_of_mem (f := Prod.fst) hm)

theorem integral_toJson (e : Effect) : Integral e.toJson := by
  induction e using Effect.induct with
  | leaf f =>
    refine .obj ?_
    simp only [List.forall_mem_cons]
    exact ⟨.str _, f.reads.integral_toJson, f.updates.integral_toJson, f.temporal.integral_toJson,
      List.forall_mem_nil _⟩
  | arrow params result hparams hresult =>
    refine .obj ?_
    simp only [List.forall_mem_cons, toJsonAll_eq_map]
    exact ⟨.str _, integral_arr_map hparams, hresult, List.forall_mem_nil _⟩

theorem fields_plain (e : Effect) : ∀ m ∈ e.fields, m.1 ≠ tagKey ∧ Integral m.2 := by
  have he := e.integral_toJson
  rw [toJson_eq] at he
  intro m hm
  exact ⟨e.fields_ne_tagKey m hm, he.members m (List.mem_cons_of_mem _ hm)⟩

theorem ofFields_leaf (inner : Decoder Effect) (f : Footprint) :
    ofFields inner .concrete (.obj (leaf f).fields) = .ok (leaf f) := by
  have hread : leafShape.gather (leaf f).fields {} = .ok ⟨f.reads, f.updates, f.temporal⟩ :=
    Shape.gather_cons rfl rfl (read_part f.reads.decode_toJson _)
      (Shape.gather_cons rfl rfl (read_part f.updates.decode_toJson _)
        (Shape.gather_cons rfl rfl (read_part f.temporal.decode_toJson _) rfl))
  rw [ofFields]
  exact decodeRecord_obj hread rfl

theorem ofFields_arrow {inner : Decoder Effect} {params : List Effect} {result : Effect}
    (hparams : ∀ e ∈ params, inner e.toJson = .ok e) (hresult : inner result.toJson = .ok result) :
    ofFields inner .arrow (.obj (arrow params result).fields) = .ok (arrow params result) := by
  have hlist : decodeList inner (.arr (toJsonAll params)) = .ok params := by
    rw [toJsonAll_eq_map]
    exact decodeEach_map hparams
  have hread : (arrowShape inner).gather (arrow params result).fields {}
      = .ok ⟨params, result⟩ :=
    Shape.gather_cons rfl rfl (read_part hlist _)
      (Shape.gather_cons rfl rfl (read_part hresult _) rfl)
  rw [ofFields]
  exact decodeRecord_obj hread rfl

theorem decodeWithin_of_fields {e : Effect} {fuel : Nat}
    (h : ofFields (decodeWithin fuel) e.kind (.obj e.fields) = .ok e) :
    decodeWithin (fuel + 1) e.toJson = .ok e := by
  rw [toJson_eq, decodeWithin, decodeTagged_obj (lookup_name e.kind) e.fields_ne_tagKey]
  exact h

/-- A parameter stands in an array of the arrow's object, the result in the object itself. -/
theorem depth_toJson_arrow (params : List Effect) (result : Effect) :
    (arrow params result).toJson.depth
      = max (depthOfItems (toJsonAll params) + 2) (result.toJson.depth + 1) := by
  show max 0 (max (depthOfItems (toJsonAll params) + 1) (max result.toJson.depth 0)) + 1 = _
  omega

theorem decodeWithin_toJson (e : Effect) :
    ∀ fuel, e.toJson.depth < fuel → decodeWithin fuel e.toJson = .ok e := by
  induction e using Effect.induct with
  | leaf f =>
    intro fuel hlt
    obtain ⟨fuel, rfl⟩ : ∃ n, fuel = n + 1 := ⟨fuel - 1, by omega⟩
    exact decodeWithin_of_fields (ofFields_leaf _ f)
  | arrow params result hparams hresult =>
    intro fuel hlt
    obtain ⟨fuel, rfl⟩ : ∃ n, fuel = n + 1 := ⟨fuel - 1, by omega⟩
    -- A parameter costs the document two levels and the result one; either costs one of fuel.
    rw [depth_toJson_arrow, toJsonAll_eq_map] at hlt
    refine decodeWithin_of_fields (ofFields_arrow (fun e he => hparams e he fuel ?_)
      (hresult fuel (by omega)))
    have hdepth : e.toJson.depth ≤ depthOfItems (params.map toJson) := depth_le_of_mem_map he
    omega

theorem decode_toJson (e : Effect) : decode e.toJson = .ok e :=
  decodeWithin_toJson e _ (Nat.lt_succ_self _)

theorem ofFields_decode (e : Effect) : ofFields decode e.kind (.obj e.fields) = .ok e := by
  cases e with
  | leaf f => exact ofFields_leaf decode f
  | arrow params result =>
    exact ofFields_arrow (fun e _ => decode_toJson e) (decode_toJson result)

/-- **An effect is read back.** -/
theorem reads_toJson (e : Effect) : Reads read e.toJson e := by
  rw [toJson_eq]
  exact (reads_tagged (lookup_name e.kind) e.fields_plain "Effect").decode
    (f := fun r => ofFields decode r.1 r.2) e.ofFields_decode

end Effect

end OperatorModes
