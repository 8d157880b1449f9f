import OperatorModes.Proofs.Document.CheckResult

/-!
# Results read back

A diagnostic holds diagnostics, so its reader calls itself, on fuel. A child stands inside an array
inside an object, and each of the two takes one from the budget, so the budget runs out before any
fuel that is above it: how much fuel there is makes no difference (`Diagnostic.readWithin_congr`), and
the reader is what it would be without, a record that holds its own kind:

> `Diagnostic.read_eq`: `read = record (shape read)`

From there diagnostics are read back by induction over the tree, maps of them by their entries, and
results by their two members. What is read back can have been written for one value only, however
deep it is (`compact_inj`).

> `result_documents_roundTrip`: what is written at most 127 levels deep is read back, what is deeper
> is refused, and different results are written differently.
-/

namespace OperatorModes

open Json

/-- Two values with readable documents are the same if their documents are spelled the same. -/
theorem Json.compact_inj {α : Type} {encode : α → Json} {reader : Reader α}
    (h : ∀ x, Reads reader (encode x) x) {x y : α}
    (heq : (encode x).compact = (encode y).compact) : x = y := by
  -- A budget that is enough for both documents: the text is then read as either value.
  let budget := max (encode x).depth (encode y).depth
  have hx : reader budget (encode x).chars = .ok (x, []) :=
    (h x budget [] trivial).trans (if_pos (Nat.le_max_left _ _))
  have hy : reader budget (encode y).chars = .ok (y, []) :=
    (h y budget [] trivial).trans (if_pos (Nat.le_max_right _ _))
  rw [String.ofList_injective heq, hy, Except.ok.injEq, Prod.mk.injEq] at hx
  exact hx.1.symm

/-! ## Diagnostics -/

namespace Diagnostic

/-- What is done with a child depends on smaller budgets than that of the record. -/
theorem shape_at_congr {child child' : Reader Diagnostic} {budget : Nat}
    (h : ∀ b < budget, child b = child' b) : (shape child).at budget = (shape child').at budget := by
  have hlist := list_congr h
  have hread : ∀ draft : Draft,
      ((Json.list child).map fun cs => { draft with children := some cs }) budget
        = ((Json.list child').map fun cs => { draft with children := some cs }) budget := by
    intro draft
    unfold Reader.map
    rw [hlist]
  simp only [Shape.at, shape, List.map_cons, Slot.at, field, hread]

/-- Fuel above the budget is enough, however much it is. -/
theorem readWithin_congr : ∀ {fuel fuel' budget : Nat}, budget < fuel → budget < fuel' →
    readWithin fuel budget = readWithin fuel' budget
  | fuel + 1, fuel' + 1, budget, h, h' => by
    refine record_congr rfl fun b hb => shape_at_congr fun b' hb' => ?_
    exact readWithin_congr (by omega) (by omega)

/-- The reader of a diagnostic reads a record that holds diagnostics. -/
theorem read_eq : read = record (shape read) := by
  funext budget
  refine record_congr rfl fun b hb => shape_at_congr fun b' hb' => ?_
  exact readWithin_congr (by omega) (Nat.lt_succ_self b')

/-- **A diagnostic is read back with all that is under it.** -/
theorem reads_toJson (d : Diagnostic) : Reads read d.toJson d := by
  induction d using Diagnostic.induct with
  | mk location message children ih =>
    have hlist : Reads (Json.list read) (.arr (toJsonAll children)) children := by
      rw [toJsonAll_eq_map]
      exact reads_list ih
    have hfills : (shape read).Fills
        [("location", .str location), ("message", .str message),
          ("children", .arr (toJsonAll children))]
        (shape read).blank ⟨location, message, children⟩ :=
      .cons rfl rfl (reads_field (reads_text location) _)
        (.cons rfl rfl (reads_field (reads_text message) _)
          (.cons rfl rfl (reads_field hlist _) (.nil _)))
    rw [read_eq]
    exact reads_record hfills rfl

end Diagnostic

/-! ## Results -/

namespace CheckResult

theorem reads_details (r : CheckResult) : Reads (readDetails r.status) r.details r := by
  cases r with
  | failure errors => exact (reads_wordMap fun e _ => e.2.reads_toJson).map failure
  | success suggestions => exact (reads_wordMap fun e _ => e.2.reads_toJson).map success

/-- The status of a result that has no details yet. -/
theorem member_status_first (r : CheckResult) (budget : Nat) {rest : List Char}
    (hrest : Stops rest) :
    member budget .blank (memberBefore "status" (.str r.status.name) rest)
      = within 0 budget (.hasStatus r.status, rest) := by
  show (string (memberBefore "status" (.str r.status.name) rest) >>= _) = _
  rw [string_memberBefore]
  show (variant Status.known budget ((Json.str r.status.name).before rest) >>= _) = _
  rw [reads_variant (lookupEntry_status_name r.status) budget rest hrest]
  exact bind_within_ok rfl

/-- The details of a result whose status is known. -/
theorem member_details_last (r : CheckResult) (budget : Nat) {rest : List Char}
    (hrest : Stops rest) :
    member budget (.hasStatus r.status) (memberBefore "details" r.details rest)
      = within r.details.depth budget (.complete r, rest) := by
  show (string (memberBefore "details" r.details rest) >>= _) = _
  rw [string_memberBefore]
  show (readDetails r.status budget (r.details.before rest) >>= _) = _
  rw [r.reads_details budget rest hrest]
  exact bind_within_ok rfl

/-- **A result is read back**: the status says how the details that follow it are to be read. -/
theorem reads_toJson (r : CheckResult) : Reads read r.toJson r := by
  rw [toJson_eq]
  intro budget rest _
  show enclosed budget _ = _
  refine enclosed_within (fun b => ?_) budget
  have hgathers : Gathers (member b) b [("status", .str r.status.name), ("details", r.details)]
      .blank (.complete r) :=
    .cons (fun rest hrest => r.member_status_first b hrest)
      (.cons (fun rest hrest => r.member_details_last b hrest) (.nil _))
  rw [members_membersBefore hgathers rest]
  exact bind_within_ok rfl

end CheckResult

/-! ## The formats of the results -/

/-- **The result formats lose nothing.** Diagnostics and results are read back as they were written
when their documents are at most 127 levels deep and are refused as too deep when they are deeper; and
at any depth the text says which value it was written for. -/
theorem result_documents_roundTrip :
    RoundTrips Diagnostic.toJson Diagnostic.read ∧ RoundTrips CheckResult.toJson CheckResult.read ∧
      (∀ c d : Diagnostic, c.toJson.compact = d.toJson.compact ↔ c = d) ∧
      ∀ r s : CheckResult, r.toJson.compact = s.toJson.compact ↔ r = s :=
  ⟨roundTrips_of_reads Diagnostic.reads_toJson, roundTrips_of_reads CheckResult.reads_toJson,
    fun c d => ⟨compact_inj Diagnostic.reads_toJson, fun h => by rw [h]⟩,
    fun r s => ⟨compact_inj CheckResult.reads_toJson, fun h => by rw [h]⟩⟩

/-- Errors with others one under another, the outermost kept at the greatest identifier there is:
sixty-two of them are read back, one more is too deep. -/
theorem result_documents_roundTrip_nested :
    let chain : Nat → CheckResult := fun n => .failure (.ofList
      [(0xFFFFFFFFFFFFFFFF, Nat.repeat (fun d => .mk "f" "\n" [.mk "g" "" [], d]) n (.mk "h" "" []))])
    (chain 61).toJson.depth ≤ 127 ∧ readAll CheckResult.read (chain 61).toJson.compact = .ok (chain 61) ∧
      128 ≤ (chain 62).toJson.depth ∧
      readAll CheckResult.read (chain 62).toJson.compact = .error .tooDeep ∧
      (chain 61).toJson.compact ≠ (chain 62).toJson.compact := by
  intro chain
  obtain ⟨-, hresults, -, hinj⟩ := result_documents_roundTrip
  have hread : (chain 61).toJson.depth ≤ 127 := by decide +kernel
  have hdeep : 128 ≤ (chain 62).toJson.depth := by decide +kernel
  refine ⟨hread, (hresults (chain 61)).1 hread, hdeep, (hresults (chain 62)).2 hdeep, fun h => ?_⟩
  rw [(hinj (chain 61) (chain 62)).mp h] at hread
  omega

end OperatorModes
