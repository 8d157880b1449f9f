import OperatorModes.Backend.Response
import OperatorModes.Proofs.Json.Indented
import OperatorModes.Proofs.Json.Mirror
import OperatorModes.Proofs.Json.Variant

/-!
# What a response says

A response is read from its text into a note, and the account of a failed pass is decoded in a
second stage from what the note keeps of it. Neither stage shows in what comes of it: a text is a
response exactly when what its document holds under a few paths of keys makes it one (`Says`),
wherever these stand and whatever stands beside them. The note is that of the document because
reading it mirrors decoding it (`mirrors_read`); the account of a pass is decoded from the canonical
form, in which the same things stand under the same keys. What is wrong with a failure makes a
response malformed even where the response says that it is a success.

> `parse_decides`: a text is the response its document says, or it is malformed.
-/

namespace OperatorModes.Backend

open Json

/-! ## Notes -/

namespace FailureNote

/-- The fields of a failure in a document. -/
def decodeShape : Shape Decoder Draft FailureNote where
  name := shape.name
  slots :=
    [part "errorType" false Draft.errorType (fun d s => { d with errorType := some s }) decodeText,
      part "data" true Draft.data (fun d v => { d with data := some v }) decodeValue]
  blank := {}
  close := shape.close

/-- Decodes a failure. -/
def decode : Decoder FailureNote := decodeRecord decodeShape leftOver

theorem mirrors_read (ms : List (String × Json)) : Mirrors read decode (.obj ms) :=
  mirrors_record
    ⟨rfl, rfl, .cons ⟨rfl, rfl, fun v _ => mirrors_field (mirrors_text v)⟩
      (.cons ⟨rfl, rfl, fun v _ => mirrors_field (mirrors_value v)⟩ .nil)⟩ leftOver

/-- A failure is decoded from its type and its data. -/
theorem decode_eq_ok_iff {ms : List (String × Json)} (hkeys : (ms.map (·.1)).Nodup)
    {note : FailureNote} :
    decode (.obj ms) = .ok note ↔ find? ms "errorType" = some (.str note.errorType) ∧
      note.data = ((find? ms "data").getD .null).canonical := by
  have hdata : ((find? ms "data").map canonical).getD .null
      = ((find? ms "data").getD .null).canonical := by
    cases find? ms "data" <;> rfl
  rw [decode, decodeShape, decodeRecord_pair_eq_ok_iff Draft.mk ?apart rfl rfl ?draft hkeys]
  case apart => exact part_apart (by decide) (fun _ _ => rfl) (fun _ _ => rfl) fun _ _ _ => rfl
  case draft => rintro (_ | _) (_ | _) <;> rfl
  simp only [fieldIs_value_iff]
  constructor
  · rintro ⟨x, _, hx, rfl, hclose⟩
    obtain ⟨errorType, rfl, hnote⟩ := need_bind_eq_ok_iff.mp hclose
    cases hnote
    exact ⟨fieldIs_text_iff.mp hx, hdata⟩
  · rintro ⟨htype, hnote⟩
    refine ⟨some note.errorType, _, fieldIs_text_iff.mpr htype, rfl,
      need_bind_eq_ok_iff.mpr ⟨note.errorType, rfl, ?_⟩⟩
    rw [hdata, ← hnote]

end FailureNote

namespace ResponseNote

/-- The fields of a response in a document. -/
def decodeShape : Shape Decoder Draft ResponseNote where
  name := shape.name
  slots :=
    [part "result" false Draft.result (fun d s => { d with result := some s }) decodeText,
      part "success" true Draft.success (fun d v => { d with success := some v })
        (decodeNullable decodeValue),
      part "failure" true Draft.failure (fun d f => { d with failure := some f })
        (decodeNullable FailureNote.decode)]
  blank := {}
  close := shape.close

/-- Decodes a response. -/
def decode : Decoder ResponseNote := decodeRecord decodeShape leftOver

/-- A response whose failure is `null` or an object is read as it is decoded. -/
theorem mirrors_read {ms : List (String × Json)}
    (h : ∀ v, ("failure", v) ∈ ms → v = .null ∨ ∃ fs, v = .obj fs) :
    Mirrors read decode (.obj ms) := by
  refine mirrors_record
    ⟨rfl, rfl, .cons ⟨rfl, rfl, fun v _ => mirrors_field (mirrors_text v)⟩
      (.cons ⟨rfl, rfl, fun v _ => mirrors_field (mirrors_nullable fun _ => mirrors_value v)⟩
        (.cons ⟨rfl, rfl, fun v hv => mirrors_field (mirrors_nullable fun hne => ?_)⟩ .nil))⟩
    leftOver
  obtain ⟨fs, rfl⟩ := (h v hv).resolve_left hne
  exact FailureNote.mirrors_read fs

/-- The value that stands in a document, if it is not `null`. -/
def given : Option Json → Option Json
  | some .null => none
  | x => x.map canonical

theorem given_getD (x : Option Json) : (given x).getD .null = (x.getD .null).canonical := by
  rcases x with _ | v
  · rfl
  · cases v <;> rfl

/-- What a document tells of a failure: nothing, if there is none or it is `null`. -/
def TellsOf (v : Json) : Option FailureNote → Prop
  | none => v.at? ["failure"] = none ∨ v.at? ["failure"] = some .null
  | some note => v.at? ["failure", "errorType"] = some (.str note.errorType) ∧
      note.data = ((v.at? ["failure", "data"]).getD .null).canonical

theorem exists_success_iff {ms : List (String × Json)} {value : Option Json} :
    (∃ x, FieldIs ms "success" (decodeNullable decodeValue) x ∧ x.getD none = value) ↔
      value = given (find? ms "success") := by
  unfold FieldIs
  cases find? ms "success" with
  | none => simp [given, eq_comm]
  | some v =>
    have hdecode : decodeNullable decodeValue v = .ok (given (some v)) := by
      cases v <;> rfl
    simp [hdecode, eq_comm]

theorem exists_failure_iff {ms : List (String × Json)} (hunrepeated : Unrepeated (.obj ms))
    (hfailure : ∀ v, find? ms "failure" = some v → v = .null ∨ ∃ fs, v = .obj fs)
    {failure : Option FailureNote} :
    (∃ x, FieldIs ms "failure" (decodeNullable FailureNote.decode) x ∧ x.getD none = failure) ↔
      TellsOf (.obj ms) failure := by
  unfold FieldIs TellsOf
  simp only [at?_pair, at?_singleton]
  cases hfound : find? ms "failure" with
  | none =>
    cases failure with
    | none => simp
    | some note => exact iff_of_false (by simp) fun h => by cases h.1
  | some v =>
    simp only [decodeNullable_eq_ok_iff]
    rcases hfailure v hfound with rfl | ⟨fs, rfl⟩
    · cases failure with
      | none => simp
      | some note => exact iff_of_false (by simp) fun h => by cases h.1
    · have hkeys : (fs.map (·.1)).Nodup := (hunrepeated.find? hfound).nodup
      rw [Option.getD_some, at?_singleton, at?_singleton]
      cases failure with
      | none => simp
      | some note => simp [← FailureNote.decode_eq_ok_iff hkeys]

theorem apart_decodeShape : decodeShape.slots.Pairwise Slot.Apart := by
  refine .cons (List.forall_mem_cons.mpr ⟨?_, List.forall_mem_singleton.mpr ?_⟩)
    (List.pairwise_pair.mpr ?_)
  · exact part_apart (by decide) (fun _ _ => rfl) (fun _ _ => rfl) fun _ _ _ => rfl
  · exact part_apart (by decide) (fun _ _ => rfl) (fun _ _ => rfl) fun _ _ _ => rfl
  · exact part_apart (by decide) (fun _ _ => rfl) (fun _ _ => rfl) fun _ _ _ => rfl

theorem fill_decodeShape_eq_ok_iff {ms : List (String × Json)} {draft : Draft} :
    fill (find? ms) decodeShape.slots decodeShape.blank = .ok draft ↔
      FieldIs ms "result" decodeText draft.result ∧
      FieldIs ms "success" (decodeNullable decodeValue) draft.success ∧
      FieldIs ms "failure" (decodeNullable FailureNote.decode) draft.failure := by
  rw [decodeShape, fill_part_eq_ok_iff]
  simp only [fill_part_eq_ok_iff]
  constructor
  · rintro ⟨x, hx, y, hy, z, hz, hdraft⟩
    cases x <;> cases y <;> cases z <;> cases hdraft <;> exact ⟨hx, hy, hz⟩
  · obtain ⟨x, y, z⟩ := draft
    rintro ⟨hx, hy, hz⟩
    refine ⟨x, hx, y, hy, z, hz, ?_⟩
    cases x <;> cases y <;> cases z <;> rfl

/-- A response is decoded from its result, its value and its failure. -/
theorem decode_eq_ok_iff {ms : List (String × Json)} (hunrepeated : Unrepeated (.obj ms))
    (hfailure : ∀ v, find? ms "failure" = some v → v = .null ∨ ∃ fs, v = .obj fs)
    {note : ResponseNote} :
    decode (.obj ms) = .ok note ↔ find? ms "result" = some (.str note.result) ∧
      note.success = given (find? ms "success") ∧ TellsOf (.obj ms) note.failure := by
  have hblank : ∀ slot ∈ decodeShape.slots, slot.isFilled decodeShape.blank = false :=
    List.forall_mem_cons.mpr
      ⟨rfl, List.forall_mem_cons.mpr ⟨rfl, List.forall_mem_singleton.mpr rfl⟩⟩
  rw [decode, decodeRecord_eq_ok_iff apart_decodeShape hblank hunrepeated.nodup]
  simp only [fill_decodeShape_eq_ok_iff, ← exists_success_iff,
    ← exists_failure_iff hunrepeated hfailure]
  constructor
  · rintro ⟨⟨x, y, z⟩, ⟨hx, hy, hz⟩, hclose⟩
    obtain ⟨result, rfl, hnote⟩ := need_bind_eq_ok_iff.mp hclose
    cases hnote
    exact ⟨fieldIs_text_iff.mp hx, ⟨y, hy, rfl⟩, z, hz, rfl⟩
  · obtain ⟨result, success, failure⟩ := note
    rintro ⟨hresult, ⟨y, hy, rfl⟩, z, hz, rfl⟩
    exact ⟨⟨some result, y, z⟩, ⟨fieldIs_text_iff.mpr hresult, hy, hz⟩, rfl⟩

end ResponseNote

/-! ## The account of a failed pass -/

theorem decodeVariant_str_eq_ok_iff {s : String} {verdict : Verdict} :
    decodeVariant Verdict.known (.str s) = .ok verdict ↔ s = verdict.name := by
  have hpick : decodeVariant Verdict.known (.str s) = pick Verdict.known s := rfl
  rw [hpick, pick_eq_ok_iff, lookupEntry_eq_some_iff (by decide), Verdict.known]
  cases verdict <;> simp [Verdict.name]

theorem decodeList_canonical_eq_ok_iff {v : Json} {vs : List Json} :
    decodeList .ok v.canonical = .ok vs ↔ ∃ items, v = .arr items ∧ vs = items.map canonical := by
  cases v with
  | arr items =>
    have hall : decodeEach .ok (items.map canonical) = .ok (items.map canonical) :=
      calc decodeEach .ok (items.map canonical)
          = decodeEach .ok ((items.map canonical).map id) := by rw [List.map_id]
        _ = .ok (items.map canonical) := decodeEach_map fun _ _ => rfl
    rw [canonical, decodeList, canonicalItems_eq_map, hall]
    simp [eq_comm]
  | _ => simp [canonical, decodeList]

/-- What a document gives for a list: an array, or nothing for no items. -/
def Lists (v : Option Json) (items : List Json) : Prop :=
  v = some (.arr items) ∨ v = none ∧ items = []

theorem fieldIs_list_iff {ms : List (String × Json)} {key : String} {vs : List Json} :
    (∃ x, FieldIs ms key (fun v => decodeList .ok v.canonical) x ∧ x.getD [] = vs) ↔
      ∃ items, Lists (find? ms key) items ∧ vs = items.map canonical := by
  unfold FieldIs Lists
  cases find? ms key with
  | none => simp [eq_comm]
  | some v =>
    simp only [decodeList_canonical_eq_ok_iff]
    constructor
    · rintro ⟨_, ⟨_, ⟨items, rfl, rfl⟩, rfl⟩, rfl⟩
      exact ⟨items, Or.inl rfl, rfl⟩
    · rintro ⟨items, hv | ⟨hv, -⟩, rfl⟩
      · cases hv
        exact ⟨_, ⟨_, ⟨items, rfl, rfl⟩, rfl⟩, rfl⟩
      · cases hv

theorem fieldIs_verdict_iff {ms : List (String × Json)} {key : String}
    (hverdict : ∀ v, find? ms key = some v → ∃ s, v = .str s) {verdict : Verdict} :
    FieldIs ms key (fun v => decodeVariant Verdict.known v.canonical) (some verdict) ↔
      find? ms key = some (.str verdict.name) := by
  rw [fieldIs_some_iff]
  constructor
  · rintro ⟨v, hv, hdecode⟩
    obtain ⟨s, rfl⟩ := hverdict v hv
    rw [hv, decodeVariant_str_eq_ok_iff.mp hdecode]
  · intro hv
    exact ⟨_, hv, decodeVariant_str_eq_ok_iff.mpr rfl⟩

/-- The findings of a pass are decoded from the verdict and the list of counterexamples. -/
theorem Findings.decode_eq_ok_iff {v : Json} (hv : v = .null ∨ ∃ es, v = .obj es)
    (hunrepeated : v.Unrepeated)
    (hverdict : ∀ c, v.at? ["checking_result"] = some c → ∃ s, c = .str s) {found : Findings} :
    decodeRecord Findings.shape leftOver v.canonical = .ok found ↔
      v.at? ["checking_result"] = some (.str found.verdict.name) ∧
      ∃ traces, Lists (v.at? ["counterexamples"]) traces ∧
        found.counterexamples = traces.map canonical := by
  rcases hv with rfl | ⟨es, rfl⟩
  · exact iff_of_false (fun h => by cases h) fun h => by cases h.1
  have hkeys := hunrepeated.nodup
  rw [at?_singleton] at hverdict
  rw [canonical, Findings.shape, decodeRecord_pair_eq_ok_iff Draft.mk ?apart rfl rfl ?draft
    (nodup_canonicalMembers es)]
  case apart => exact part_apart (by decide) (fun _ _ => rfl) (fun _ _ => rfl) fun _ _ _ => rfl
  case draft => rintro (_ | _) (_ | _) <;> rfl
  simp only [fieldIs_canonicalMembers hkeys, at?_singleton, ← fieldIs_list_iff]
  constructor
  · rintro ⟨x, y, hx, hy, hclose⟩
    obtain ⟨verdict, rfl, hfound⟩ := need_bind_eq_ok_iff.mp hclose
    cases hfound
    exact ⟨(fieldIs_verdict_iff hverdict).mp hx, y, hy, rfl⟩
  · obtain ⟨verdict, counterexamples⟩ := found
    rintro ⟨hx, y, hy, rfl⟩
    exact ⟨some verdict, y, (fieldIs_verdict_iff hverdict).mpr hx, hy, rfl⟩

/-- The data of the error of a pass are its findings. -/
theorem fieldIs_findings_iff {ds : List (String × Json)} (hunrepeated : Unrepeated (.obj ds))
    (hfindings : ∀ e, find? ds "error_data" = some e → e = .null ∨ ∃ es, e = .obj es)
    (hverdict : ∀ c, (Json.obj ds).at? ["error_data", "checking_result"] = some c →
      ∃ s, c = .str s) {found : Findings} :
    FieldIs ds "error_data" (fun v => decodeRecord Findings.shape leftOver v.canonical)
        (some found) ↔
      (Json.obj ds).at? ["error_data", "checking_result"] = some (.str found.verdict.name) ∧
      ∃ traces, Lists ((Json.obj ds).at? ["error_data", "counterexamples"]) traces ∧
        found.counterexamples = traces.map canonical := by
  rw [fieldIs_some_iff]
  simp only [at?_pair] at hverdict ⊢
  cases hfound : find? ds "error_data" with
  | none => exact iff_of_false (by simp) fun h => by cases h.1
  | some e =>
    rw [hfound] at hverdict
    simp only [Option.some.injEq, exists_eq_left', Option.getD_some] at hverdict ⊢
    exact Findings.decode_eq_ok_iff (hfindings e hfound) (hunrepeated.find? hfound) hverdict

/-- A failed pass is decoded from its name and its findings. -/
theorem decodePass_eq_ok_iff {v : Json} (hv : v = .null ∨ ∃ ds, v = .obj ds)
    (hunrepeated : v.Unrepeated)
    (hfindings : ∀ e, v.at? ["error_data"] = some e → e = .null ∨ ∃ es, e = .obj es)
    (hverdict : ∀ c, v.at? ["error_data", "checking_result"] = some c → ∃ s, c = .str s)
    {failure : Failure} :
    decodePass v.canonical = .ok failure ↔ ∃ name verdict traces,
      v.at? ["pass_name"] = some (.str name) ∧
      v.at? ["error_data", "checking_result"] = some (.str (Verdict.name verdict)) ∧
      Lists (v.at? ["error_data", "counterexamples"]) traces ∧
      failure = .pass name verdict (traces.map canonical) := by
  rcases hv with rfl | ⟨ds, rfl⟩
  · exact iff_of_false (fun h => by cases h) (by simp [at?])
  have hkeys := hunrepeated.nodup
  rw [at?_singleton] at hfindings
  rw [decodePass, canonical, passShape, decodeRecord_pair_eq_ok_iff PassDraft.mk ?apart rfl rfl
    ?draft (nodup_canonicalMembers ds)]
  case apart => exact part_apart (by decide) (fun _ _ => rfl) (fun _ _ => rfl) fun _ _ _ => rfl
  case draft => rintro (_ | _) (_ | _) <;> rfl
  simp only [fieldIs_canonicalMembers hkeys, at?_singleton]
  constructor
  · rintro ⟨x, y, hx, hy, hclose⟩
    obtain ⟨name, rfl, hrest⟩ := need_bind_eq_ok_iff.mp hclose
    obtain ⟨found, rfl, hfailure⟩ := need_bind_eq_ok_iff.mp hrest
    cases hfailure
    obtain ⟨hresult, traces, htraces, hlist⟩ :=
      (fieldIs_findings_iff hunrepeated hfindings hverdict).mp hy
    exact ⟨name, found.verdict, traces, fieldIs_canonical_text_iff.mp hx, hresult, htraces,
      hlist ▸ rfl⟩
  · rintro ⟨name, verdict, traces, hx, hresult, htraces, rfl⟩
    refine ⟨some name, some ⟨verdict, traces.map canonical⟩,
      fieldIs_canonical_text_iff.mpr hx, ?_, rfl⟩
    exact (fieldIs_findings_iff hunrepeated hfindings hverdict).mpr ⟨hresult, traces, htraces, rfl⟩

/-! ## Responses -/

/-- A document gives `null`, an object or nothing under a path. -/
def ObjectIfAny (v : Json) (path : List String) : Prop :=
  ∀ w, v.at? path = some w → w = .null ∨ ∃ ms, w = .obj ms

/-- **A document as a backend sends it**, though it may hold anything anywhere else: an object
without repeated members, whose failure, the data of it if a pass failed, and the data of the error
in these are objects unless they are `null` or missing, and the result of checking is a string
unless it is missing. -/
structure Regular (v : Json) : Prop where
  object : ∃ ms, v = .obj ms
  unrepeated : v.Unrepeated
  failure : ObjectIfAny v ["failure"]
  data : v.at? ["result"] = some (.str "failure") →
    v.at? ["failure", "errorType"] = some (.str "PASS_FAILURE") →
    ObjectIfAny v ["failure", "data"] ∧ ObjectIfAny v ["failure", "data", "error_data"] ∧
    ∀ c, v.at? ["failure", "data", "error_data", "checking_result"] = some c → ∃ s, c = .str s

/-- A document's failure can be read: there is none, it is `null`, or it has a type. -/
def FailureReadable (v : Json) : Prop :=
  v.at? ["failure"] = none ∨ v.at? ["failure"] = some .null ∨
    ∃ errorType, v.at? ["failure", "errorType"] = some (.str errorType)

/-- **What response a document says.** A success needs a failure that can be read, like any other
response; its value is `null` if there is none, and so are the data of an unexpected failure. -/
inductive Says (v : Json) : Response → Prop
  | success (hresult : v.at? ["result"] = some (.str "success")) (hfailure : FailureReadable v) :
    Says v (.success ((v.at? ["success"]).getD .null).canonical)
  | unexpected (hresult : v.at? ["result"] = some (.str "failure"))
      (htype : v.at? ["failure", "errorType"] = some (.str "UNEXPECTED")) :
    Says v (.failure (.unexpected ((v.at? ["failure", "data"]).getD .null).canonical))
  | pass {name : String} {verdict : Verdict} {traces : List Json}
      (hresult : v.at? ["result"] = some (.str "failure"))
      (htype : v.at? ["failure", "errorType"] = some (.str "PASS_FAILURE"))
      (hname : v.at? ["failure", "data", "pass_name"] = some (.str name))
      (hverdict : v.at? ["failure", "data", "error_data", "checking_result"]
        = some (.str verdict.name))
      (htraces : Lists (v.at? ["failure", "data", "error_data", "counterexamples"]) traces) :
    Says v (.failure (.pass name verdict (traces.map canonical)))

namespace Response

theorem parse_eq_ok_iff {text : String} {response : Response} :
    parse text = .ok response ↔
      ∃ note, readAll ResponseNote.read text = .ok note ∧ ofNote note = .ok response := by
  unfold parse interpret
  cases readAll ResponseNote.read text with
  | error cause => simp
  | ok note =>
    simp only [Except.ok.injEq, exists_eq_left']
    cases ofNote note with
    | ok found => simp
    | error fault => simp

theorem parse_cases (text : String) :
    (∃ response, parse text = .ok response) ∨
      ∃ message, parse text = .error (.malformed message) := by
  unfold parse
  cases interpret text with
  | ok response => exact Or.inl ⟨response, rfl⟩
  | error fault => exact Or.inr ⟨fault.message, rfl⟩

/-- The account of a failed pass says what stands under its paths in the response. -/
theorem decodePass_iff {v : Json} (h : Regular v)
    (hresult : v.at? ["result"] = some (.str "failure"))
    (htype : v.at? ["failure", "errorType"] = some (.str "PASS_FAILURE")) {failure : Failure} :
    decodePass ((v.at? ["failure", "data"]).getD .null).canonical = .ok failure ↔
      ∃ name verdict traces, v.at? ["failure", "data", "pass_name"] = some (.str name) ∧
        v.at? ["failure", "data", "error_data", "checking_result"]
          = some (.str (Verdict.name verdict)) ∧
        Lists (v.at? ["failure", "data", "error_data", "counterexamples"]) traces ∧
        failure = .pass name verdict (traces.map canonical) := by
  have hpath : ∀ key rest, v.at? ("failure" :: "data" :: key :: rest)
      = ((v.at? ["failure", "data"]).getD .null).at? (key :: rest) :=
    fun key rest => at?_append key rest v ["failure", "data"]
  obtain ⟨hdata, hfindings, hverdict⟩ := h.data hresult htype
  unfold ObjectIfAny at hfindings
  simp only [hpath] at hfindings hverdict ⊢
  cases hfound : v.at? ["failure", "data"] with
  | none =>
    rw [hfound] at hfindings hverdict
    exact decodePass_eq_ok_iff (Or.inl rfl) .null hfindings hverdict
  | some w =>
    rw [hfound] at hfindings hverdict
    exact decodePass_eq_ok_iff (hdata w hfound) (h.unrepeated.at? hfound) hfindings hverdict

/-- A note tells of a failure if it has a type that is known. -/
theorem failure_ofNote_eq_ok_iff {note : FailureNote} {failure : Failure} :
    Failure.ofNote note = .ok failure ↔
      note.errorType = "UNEXPECTED" ∧ failure = .unexpected note.data ∨
      note.errorType = "PASS_FAILURE" ∧ decodePass note.data = .ok failure := by
  unfold Failure.ofNote
  split
  · next hunexpected =>
    rw [hunexpected]
    simp [eq_comm]
  · next hother =>
    simp only [hother, false_and, false_or]
    split
    · next hpass =>
      rw [and_iff_right hpass]
      cases decodePass note.data with
      | ok found => simp only [Except.ok.injEq]
      | error cause => simp
    · next hneither => exact iff_of_false (by simp) fun h => hneither h.1

/-- A note tells of a response if it has a result that is known, and a failure if it is one. -/
theorem ofNote_eq_ok_iff {note : ResponseNote} {response : Response} :
    ofNote note = .ok response ↔
      note.result = "success" ∧ response = .success (note.success.getD .null) ∨
      note.result = "failure" ∧ ∃ details failure, note.failure = some details ∧
        Failure.ofNote details = .ok failure ∧ response = .failure failure := by
  unfold ofNote
  split
  · next hsuccess =>
    rw [hsuccess]
    simp [eq_comm]
  · next hother =>
    simp only [hother, false_and, false_or]
    split
    · next hfailure =>
      rw [and_iff_right hfailure]
      cases note.failure with
      | none => simp
      | some details =>
        cases hdetails : Failure.ofNote details with
        | ok failure => simp [hdetails, eq_comm]
        | error fault => simp [hdetails]
    · next hneither => exact iff_of_false (by simp) fun h => hneither h.1

/-- The note of a text is the note of its document. -/
theorem read_note_iff {text : String} {v : Json} (hread : readAll tree text = .ok v)
    (h : Regular v) {note : ResponseNote} :
    readAll ResponseNote.read text = .ok note ↔
      v.at? ["result"] = some (.str note.result) ∧
        note.success = ResponseNote.given (v.at? ["success"]) ∧
        ResponseNote.TellsOf v note.failure := by
  obtain ⟨ms, rfl⟩ := h.object
  have hfailure := h.failure
  unfold ObjectIfAny at hfailure
  rw [at?_singleton] at hfailure
  rw [readAll_eq_ok_iff_of_mirrors (ResponseNote.mirrors_read fun v hv => ?_) hread,
    ResponseNote.decode_eq_ok_iff h.unrepeated hfailure, at?_singleton, at?_singleton]
  exact hfailure v (lookupEntry_of_mem h.unrepeated.nodup hv)

/-- Some note tells of the failure exactly when it can be read. -/
theorem exists_tellsOf_iff {v : Json} :
    (∃ failure, ResponseNote.TellsOf v failure) ↔ FailureReadable v := by
  constructor
  · rintro ⟨_ | note, h⟩
    · exact h.imp_right Or.inl
    · exact Or.inr (Or.inr ⟨note.errorType, h.1⟩)
  · rintro (h | h | ⟨errorType, h⟩)
    · exact ⟨none, Or.inl h⟩
    · exact ⟨none, Or.inr h⟩
    · exact ⟨some { errorType, data := _ }, h, rfl⟩

/-- A text is the response that its document says. -/
theorem parse_eq_ok_iff_of_regular {text : String} {v : Json} (hread : readAll tree text = .ok v)
    (h : Regular v) {response : Response} : parse text = .ok response ↔ Says v response := by
  simp only [parse_eq_ok_iff, read_note_iff hread h, ofNote_eq_ok_iff, failure_ofNote_eq_ok_iff]
  constructor
  · rintro ⟨⟨result, value, failure⟩, ⟨hresult, hvalue, htells⟩, hkind⟩
    dsimp only at hresult hvalue htells hkind
    rcases hkind with ⟨rfl, rfl⟩ | ⟨rfl, details, found, rfl, hfound, rfl⟩
    · rw [hvalue, ResponseNote.given_getD]
      exact .success hresult (exists_tellsOf_iff.mp ⟨failure, htells⟩)
    · obtain ⟨htype, hdata⟩ := htells
      rw [hdata] at hfound
      rcases hfound with ⟨hunexpected, rfl⟩ | ⟨hpass, hfound⟩
      · rw [hunexpected] at htype
        exact .unexpected hresult htype
      · rw [hpass] at htype
        obtain ⟨name, verdict, traces, hname, hverdict, htraces, rfl⟩ :=
          (decodePass_iff h hresult htype).mp hfound
        exact .pass hresult htype hname hverdict htraces
  · intro hsays
    cases hsays with
    | success hresult hfailure =>
      obtain ⟨failure, htells⟩ := exists_tellsOf_iff.mpr hfailure
      exact ⟨⟨"success", _, failure⟩, ⟨hresult, rfl, htells⟩,
        Or.inl ⟨rfl, congrArg Response.success (ResponseNote.given_getD _).symm⟩⟩
    | unexpected hresult htype =>
      exact ⟨⟨"failure", _, some ⟨"UNEXPECTED", _⟩⟩, ⟨hresult, rfl, htype, rfl⟩,
        Or.inr ⟨rfl, _, _, rfl, Or.inl ⟨rfl, rfl⟩, rfl⟩⟩
    | pass hresult htype hname hverdict htraces =>
      have hfound := (decodePass_iff h hresult htype).mpr ⟨_, _, _, hname, hverdict, htraces, rfl⟩
      exact ⟨⟨"failure", _, some ⟨"PASS_FAILURE", _⟩⟩, ⟨hresult, rfl, htype, rfl⟩,
        Or.inr ⟨rfl, _, _, rfl, Or.inr ⟨rfl, hfound⟩, rfl⟩⟩

/-- **What is a response.** A text is a response, or it is malformed and nothing else is wrong with
it. Where it holds a document as a backend sends it, it is the response that the document says, and
if the document says none, it is malformed. -/
theorem parse_decides :
    (∀ text, (∃ response, parse text = .ok response) ∨
      ∃ message, parse text = .error (.malformed message)) ∧
    ∀ text v, readAll tree text = .ok v → Regular v →
      (∀ response, parse text = .ok response ↔ Says v response) ∧
      ((∀ response, ¬ Says v response) → ∃ message, parse text = .error (.malformed message)) := by
  refine ⟨parse_cases, fun text v hread h => ⟨fun _ => parse_eq_ok_iff_of_regular hread h, ?_⟩⟩
  intro hnone
  refine (parse_cases text).resolve_left ?_
  rintro ⟨response, hparse⟩
  exact hnone response ((parse_eq_ok_iff_of_regular hread h).mp hparse)

/-- The account of a failed pass is found among other members, and in another order than it is
declared in. -/
theorem parse_decides_pass :
    let trace : Json := .obj [("y", .null), ("x", .bool true)]
    let found : Json :=
      .obj [("counterexamples", .arr [trace]), ("checking_result", .str "Deadlock")]
    let data : Json := .obj [("error_data", found), ("seen", .null), ("pass_name", .str "order")]
    let failure : Json := .obj [("data", data), ("errorType", .str "PASS_FAILURE")]
    let v : Json := .obj [("failure", failure), ("result", .str "failure")]
    readAll tree v.compact = .ok v ∧ Regular v ∧
      parse v.compact = .ok (.failure (.pass "order" .deadlock
        [.obj [("x", .bool true), ("y", .null)]])) := by
  intro trace found data failure v
  have hintegral : Integral v := by
    have htrace : Integral trace := .obj (by simp [Integral.null, Integral.bool])
    have hfound : Integral found := .obj (by simp [Integral.arr, Integral.str, htrace])
    have hdata : Integral data := .obj (by simp [Integral.null, Integral.str, hfound])
    have hfailure : Integral failure := .obj (by simp [Integral.str, hdata])
    exact .obj (by simp [Integral.str, hfailure])
  have hunrepeated : Unrepeated v := by
    have htrace : Unrepeated trace := .obj (by decide) (by simp [Unrepeated.null, Unrepeated.bool])
    have hfound : Unrepeated found :=
      .obj (by decide) (by simp [Unrepeated.arr, Unrepeated.str, htrace])
    have hdata : Unrepeated data :=
      .obj (by decide) (by simp [Unrepeated.null, Unrepeated.str, hfound])
    have hfailure : Unrepeated failure := .obj (by decide) (by simp [Unrepeated.str, hdata])
    exact .obj (by decide) (by simp [Unrepeated.str, hfailure])
  have hread : readAll tree v.compact = .ok v :=
    (readAll_compact (reads_tree hintegral)).trans (if_pos (by decide))
  have hregular : Regular v :=
    { object := ⟨_, rfl⟩
      unrepeated := hunrepeated
      failure := fun _ h => Or.inr ⟨_, (Option.some.inj h).symm⟩
      data := fun _ _ => ⟨fun _ h => Or.inr ⟨_, (Option.some.inj h).symm⟩,
        fun _ h => Or.inr ⟨_, (Option.some.inj h).symm⟩,
        fun _ h => ⟨_, (Option.some.inj h).symm⟩⟩ }
  have hsays : Says v (.failure (.pass "order" .deadlock ([trace].map canonical))) :=
    .pass rfl rfl rfl rfl (Or.inl rfl)
  exact ⟨hread, hregular, ((parse_decides.2 v.compact v hread hregular).1 _).mpr hsays⟩

end Response

end OperatorModes.Backend
