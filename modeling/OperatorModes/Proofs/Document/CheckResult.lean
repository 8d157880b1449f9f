import OperatorModes.Document.CheckResult
import OperatorModes.Proofs.Document.RoundTrip

/-!
# Results whose details come first

A result is written with its status before its details, so that a reader knows from the status what
the details are and reads their keys as identifiers. Details that come first wait as a document until
the status is known, and in a document a key is a string, which is no identifier:

> `readAll_detailsFirst`: of the results whose details come first, only the empty ones are read back.

The same members in the order in which they are written are read (`detailsFirst_refused`).
-/

namespace OperatorModes

open Json

/-! ## Maps by identifiers -/

namespace SortedMap

variable {α : Type}

theorem exists_toJson_eq (m : SortedMap UInt64 α) (entry : α → Json) :
    ∃ ms, m.toJson entry = .obj ms ∧ ms.map (·.1) = m.keys.map fun k => toString k.toNat := by
  refine ⟨_, rfl, ?_⟩
  rw [keys, List.map_map, List.map_map]
  rfl

end SortedMap

/-! ## Diagnostics -/

namespace Diagnostic

/-- Induction over a diagnostic: by all the diagnostics under it at once. -/
theorem induct {motive : Diagnostic → Prop}
    (mk : ∀ location message children, (∀ d ∈ children, motive d) →
      motive (mk location message children)) : ∀ d, motive d
  | .mk location message children => mk location message children fun d _ => induct mk d

theorem toJsonAll_eq_map (ds : List Diagnostic) : toJsonAll ds = ds.map toJson := by
  induction ds with
  | nil => rfl
  | cons d ds ih => rw [toJsonAll, ih, List.map_cons]

theorem integral_toJson (d : Diagnostic) : Integral d.toJson := by
  induction d using Diagnostic.induct with
  | mk location message children ih =>
    refine .obj ?_
    simp only [List.forall_mem_cons, toJsonAll_eq_map]
    exact ⟨.str location, .str message, integral_arr_map ih, List.forall_mem_nil _⟩

end Diagnostic

namespace CheckResult

/-! ## The members of a result -/

/-- What the status of the result says. -/
def status : CheckResult → Status
  | failure _ => .failure
  | success _ => .success

/-- The status as it is written. -/
def Status.name : Status → String
  | failure => "failure"
  | success => "success"

/-- The identifiers with details. -/
def ids : CheckResult → List DefinitionId
  | failure errors => errors.keys
  | success suggestions => suggestions.keys

/-- The details as a document. -/
def details : CheckResult → Json
  | failure errors => errors.toJson Diagnostic.toJson
  | success suggestions => suggestions.toJson Qualifier.toJson

theorem toJson_eq (r : CheckResult) :
    r.toJson = .obj [("status", .str r.status.name), ("details", r.details)] := by
  cases r <;> rfl

/-- The result as a document, its details first. -/
def detailsFirst (r : CheckResult) : Json :=
  .obj [("details", r.details), ("status", .str r.status.name)]

theorem lookupEntry_status_name (s : Status) : lookupEntry s.name Status.known = some s := by
  cases s <;> rfl

theorem integral_details (r : CheckResult) : Integral r.details := by
  cases r with
  | failure errors => exact errors.integral_toJson Diagnostic.integral_toJson
  | success suggestions => exact suggestions.integral_toJson fun _ => .str _

/-- The keys of the details are the identifiers in decimal. -/
theorem exists_details_eq (r : CheckResult) :
    ∃ ms, r.details = .obj ms ∧ ms.map (·.1) = r.ids.map fun k => toString k.toNat := by
  cases r with
  | failure errors => exact errors.exists_toJson_eq Diagnostic.toJson
  | success suggestions => exact suggestions.exists_toJson_eq Qualifier.toJson

/-! ## Details that wait for their status -/

theorem decodeDetails_of_empty {r : CheckResult} (h : r.ids = []) :
    decodeDetails r.status r.details = .ok r := by
  cases r with
  | failure errors =>
    cases SortedMap.eq_empty_of_keys_eq_nil h
    rfl
  | success suggestions =>
    cases SortedMap.eq_empty_of_keys_eq_nil h
    rfl

/-- The first key is met as a string, whatever stands behind it. -/
theorem decodeDetails_of_cons {r : CheckResult} {k : DefinitionId} {ks : List DefinitionId}
    (h : r.ids = k :: ks) :
    decodeDetails r.status r.details = .error (.wrongType (.str (toString k.toNat)) "u64") := by
  obtain ⟨ms, hdetails, hkeys⟩ := r.exists_details_eq
  rw [h, List.map_cons] at hkeys
  obtain ⟨m, ms, rfl, hkey, -⟩ := List.map_eq_cons_iff.mp hkeys
  rw [hdetails, ← hkey]
  rfl

/-! ## Reading -/

/-- Details without a status are read as a document. -/
theorem member_details (r : CheckResult) (budget : Nat) {rest : List Char} (hrest : Stops rest) :
    member budget .blank (memberBefore "details" r.details rest)
      = within r.details.depth budget (.hasDetails r.details, rest) := by
  show (string (memberBefore "details" r.details rest) >>= _) = _
  rw [string_memberBefore]
  show (tree budget (r.details.before rest) >>= _) = _
  rw [reads_tree r.integral_details budget rest hrest]
  exact bind_within_ok rfl

/-- Once the status is known, the details are decoded. -/
theorem member_status (r : CheckResult) (budget : Nat) {rest : List Char} (hrest : Stops rest) :
    member budget (.hasDetails r.details) (memberBefore "status" (.str r.status.name) rest)
      = decodeDetails r.status r.details >>= fun result => .ok (.complete result, rest) := by
  show (string (memberBefore "status" (.str r.status.name) rest) >>= _) = _
  rw [string_memberBefore]
  show (variant Status.known budget ((Json.str r.status.name).before rest) >>= _) = _
  rw [reads_variant (lookupEntry_status_name r.status) budget rest hrest]
  rfl

theorem depth_detailsFirst (r : CheckResult) : r.detailsFirst.depth = r.toJson.depth := by
  rw [toJson_eq]
  show max r.details.depth (max 0 0) + 1 = max 0 (max r.details.depth 0) + 1
  omega

theorem reads_detailsFirst_of_empty {r : CheckResult} (h : r.ids = []) :
    Reads read r.detailsFirst r := by
  intro budget rest _
  show enclosed budget _ = _
  refine enclosed_within (fun b => ?_) budget
  have hgathers : Gathers (member b) b [("details", r.details), ("status", .str r.status.name)]
      .blank (.complete r) := by
    refine .cons (fun rest hrest => member_details r b hrest)
      (.cons (fun rest hrest => ?_) (.nil _))
    rw [member_status r b hrest, decodeDetails_of_empty h]
    exact (within_zero b _).symm
  rw [members_membersBefore hgathers rest]
  exact bind_within_ok rfl

theorem read_detailsFirst_of_cons {r : CheckResult} {k : DefinitionId} {ks : List DefinitionId}
    (h : r.ids = k :: ks) (budget : Nat) (rest : List Char) :
    read budget (r.detailsFirst.before rest)
      = bounded r.detailsFirst.depth budget (.error (.wrongType (.str (toString k.toNat)) "u64")) := by
  have hdepth : r.detailsFirst.depth = depthOfMembers [("details", r.details)] + 1 := rfl
  rw [hdepth]
  show enclosed budget _ = _
  refine enclosed_bounded (fun b => ?_) budget
  have hgathers : Gathers (member b) b [("details", r.details)] .blank (.hasDetails r.details) :=
    .cons (fun rest hrest => member_details r b hrest) (.nil _)
  -- The fault is met at the status, behind the details: they may be too deep before that.
  have hstatus : ∀ rest, Stops rest →
      member b (.hasDetails r.details) (memberBefore "status" (.str r.status.name) rest)
        = .error (.wrongType (.str (toString k.toNat)) "u64") := by
    intro rest hrest
    rw [member_status r b hrest, decodeDetails_of_cons h]
    rfl
  rw [← List.singleton_append, members_of_error hgathers hstatus rest]
  exact bounded_error_bind

/-! ## Whole documents -/

/-- **Whether details may come first.** A result that is written with its details before its status
is read back exactly when it has no details. If it has any, the first identifier among them is
refused as a string that is no number. A document that is too deep is refused as such. -/
theorem readAll_detailsFirst (r : CheckResult) :
    (r.toJson.depth ≤ 127 →
      (readAll read r.detailsFirst.compact = .ok r ↔ r.ids = []) ∧
      ∀ k ks, r.ids = k :: ks →
        readAll read r.detailsFirst.compact
          = .error (.wrongType (.str (toString k.toNat)) "u64")) ∧
    (128 ≤ r.toJson.depth → readAll read r.detailsFirst.compact = .error .tooDeep) := by
  rw [← depth_detailsFirst]
  cases hids : r.ids with
  | nil =>
    rw [readAll_compact (reads_detailsFirst_of_empty hids)]
    refine ⟨fun hle => ⟨iff_of_true (if_pos hle) rfl, fun k ks h => ?_⟩, fun hgt => ?_⟩
    · cases h
    · exact if_neg (Nat.not_le.mpr hgt)
  | cons k ks =>
    have hread : readAll read r.detailsFirst.compact
        = bounded r.detailsFirst.depth depthLimit
            (.error (.wrongType (.str (toString k.toNat)) "u64")) := by
      rw [readAll, compact, String.toList_ofList]
      show (read depthLimit (r.detailsFirst.before []) >>= _) = _
      rw [read_detailsFirst_of_cons hids]
      exact bounded_error_bind
    rw [hread]
    refine ⟨fun hle => ?_, fun hgt => if_neg (Nat.not_le.mpr hgt)⟩
    rw [bounded, if_pos (show _ ≤ depthLimit from hle)]
    refine ⟨iff_of_false (fun h => by cases h) (fun h => by cases h), fun k' ks' h => ?_⟩
    rw [(List.cons.inj h).1]

/-- No errors at all are read back, two suggestions are refused at the first of them, and an error
with sixty-three others one under another is too deep. -/
theorem readAll_detailsFirst_each :
    let nothing : CheckResult := .failure .empty
    let two : CheckResult := .success (.ofList [(10, .val), (7, .pureDef)])
    let deep : CheckResult := .failure (.ofList
      [(1, Nat.repeat (fun d => .mk "f" "g" [d]) 63 (.mk "f" "g" []))])
    nothing.toJson.depth ≤ 127 ∧ readAll read nothing.detailsFirst.compact = .ok nothing ∧
      two.toJson.depth ≤ 127 ∧ two.ids = [7, 10] ∧
      readAll read two.detailsFirst.compact = .error (.wrongType (.str "7") "u64") ∧
      128 ≤ deep.toJson.depth ∧ readAll read deep.detailsFirst.compact = .error .tooDeep := by
  intro nothing two deep
  have hnothing : nothing.toJson.depth ≤ 127 := by decide
  have htwo : two.toJson.depth ≤ 127 := by decide
  have hids : two.ids = [7, 10] := by decide
  have hdeep : 128 ≤ deep.toJson.depth := by decide +kernel
  exact ⟨hnothing, ((readAll_detailsFirst nothing).1 hnothing).1.mpr rfl, htwo, hids,
    ((readAll_detailsFirst two).1 htwo).2 7 [10] hids, hdeep, (readAll_detailsFirst deep).2 hdeep⟩

/-- A result with one suggestion is read back as it is written, and refused with the same two members
the other way round. -/
theorem detailsFirst_refused :
    let r : CheckResult := .success (.ofList [(1, .val)])
    r.detailsFirst.compact = "\x7b\"details\":\x7b\"1\":\"val\"\x7d,\"status\":\"success\"\x7d" ∧
      readAll read r.toJson.compact = .ok r ∧
      readAll read r.detailsFirst.compact = .error (.wrongType (.str "1") "u64") ∧
      readAll read r.detailsFirst.compact ≠ .ok r := by
  decide +kernel

end CheckResult

end OperatorModes
