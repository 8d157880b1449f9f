import OperatorModes.Proofs.Document.RoundTrip
import OperatorModes.Proofs.Json.Fields
import OperatorModes.Proofs.Json.Indented

/-!
# Inputs read as they are written

Whoever writes an input need not write it the way it is printed. `WrittenAs` says, for every type that
is an object in a document, how else a value of the type is written: each object on its own is printed
compactly, or it has its fields in any order, the kind of a payload or an effect in any place, an empty
payload, list of definitions or map of effects left out, and members added that nothing asks for
(`HasFields.of_perm`); a map of effects has its entries in any order.

The two ways of reading meet here. Records in text pass over what they do not know; payloads and
effects are read as whole documents first and decoded after that. For either, what has to be shown of
a type is only which draft the keys met so far belong to (`builds`), and all of it comes down to

> `CheckInput.ofDocument_written`: however an input is written, it is what the text is read as, unless
> the text is more than 127 levels deep.
-/

namespace OperatorModes

open Json

/-! ## Payloads -/

namespace Payload

mutual

/-- How a payload is written. -/
def WrittenAs : Payload → Written → Prop
  | names vars => Written.Spells (names vars).toJson
      [tagField "concrete", .exactly "vars" (.arr (vars.toList.map .str))]
  | union members => Written.Spells (union members).toJson
      [tagField "union",
        .required "variables" fun w => ∃ ws, w = .arr ws ∧ WrittenAsAll members ws]

/-- How each payload of a list is written. -/
def WrittenAsAll : List Payload → List Written → Prop
  | [], ws => ws = []
  | p :: rest, ws => ∃ w more, ws = w :: more ∧ p.WrittenAs w ∧ WrittenAsAll rest more

end

/-- A payload as a field, which may be missing when it is empty. -/
def asField (key : String) (p : Payload) : Field where
  key := key
  mayLack := p = .empty
  spelled := p.WrittenAs

@[simp] theorem key_asField (key : String) (p : Payload) : (p.asField key).key = key :=
  rfl

@[simp] theorem mayLack_asField (key : String) (p : Payload) :
    (p.asField key).mayLack = (p = .empty) :=
  rfl

@[simp] theorem spelled_asField (key : String) (p : Payload) :
    (p.asField key).spelled = p.WrittenAs :=
  rfl

/-- The fields of a payload beside its kind. -/
def writtenFields : Payload → List Field
  | names vars => [.exactly "vars" (.arr (vars.toList.map .str))]
  | union members => [.required "variables" fun w => ∃ ws, w = .arr ws ∧ WrittenAsAll members ws]

theorem writtenAs_iff {p : Payload} {w : Written} :
    p.WrittenAs w ↔ w.Spells p.toJson (tagField p.kind.name :: p.writtenFields) := by
  cases p <;> (rw [WrittenAs]; rfl)

theorem writtenFields_ne_tagKey (p : Payload) : tagKey ∉ p.writtenFields.map Field.key := by
  have hnames : tagKey ∉ ["vars"] := by decide
  have hunion : tagKey ∉ ["variables"] := by decide
  cases p with
  | names vars => exact hnames
  | union members => exact hunion

variable {member : Decoder Payload} {limit : Nat}

theorem decodes_members (h : ∀ p w, p.WrittenAs w → Decodes limit member w p) :
    ∀ {ps : List Payload} {ws : List Written}, WrittenAsAll ps ws →
      List.Forall₂ (Decodes limit member) ws ps
  | [], _, rfl => .nil
  | p :: _, _, ⟨w, _, rfl, hw, hmore⟩ => .cons (h p w hw) (decodes_members h hmore)

theorem builds_names (vars : NameSet) :
    namesShape.Builds (Decodes limit) (names vars).writtenFields
      (fun seen => taken "vars" seen vars.toList) (names vars) where
  blank := rfl
  keys := rfl
  step := by
    refine List.forall_mem_singleton.mpr
      (builds_part rfl (fun _ => rfl) (fun _ => by simp) ?_)
    rintro _ ⟨_, rfl⟩ _
    exact decodeList_text vars.toList
  close := by
    intro seen hseen
    have hvars : "vars" ∈ seen := (List.forall_mem_singleton.mp hseen).resolve_left id
    simp only [namesShape, need_taken hvars]
    show Except.ok (names (.ofList vars.toList)) = _
    rw [NameSet.ofList_toList]

theorem builds_union (h : ∀ p w, p.WrittenAs w → Decodes limit member w p)
    (members : List Payload) :
    (unionShape member).Builds (Decodes limit) (union members).writtenFields
      (fun seen => taken "variables" seen members) (union members) where
  blank := rfl
  keys := rfl
  step := by
    refine List.forall_mem_singleton.mpr
      (builds_part rfl (fun _ => rfl) (fun _ => by simp) ?_)
    rintro _ ⟨ws, rfl, hws⟩
    exact decodes_list (decodes_members h hws)
  close := by
    intro seen hseen
    have hvariables : "variables" ∈ seen := (List.forall_mem_singleton.mp hseen).resolve_left id
    simp only [unionShape, need_taken hvariables]
    rfl

theorem ofFields_written (h : ∀ p w, p.WrittenAs w → Decodes limit member w p) (p : Payload)
    {ms : List (String × Written)} (hms : HasFields p.writtenFields ms)
    (hdepth : ∀ m ∈ ms, m.2.value.depth ≤ limit) :
    ofFields member p.kind (Written.obj ms).value = .ok p := by
  cases p with
  | names vars => exact decodeRecord_of_fields (builds_names vars) hms hdepth taggedLeftOver
  | union members =>
    exact decodeRecord_of_fields (builds_union h members) hms hdepth taggedLeftOver

/-- A payload is decoded as it is written, with fuel above the depth. -/
theorem decodes_within :
    ∀ limit (p : Payload) (w : Written), p.WrittenAs w →
      Decodes limit (decodeWithin (limit + 1)) w p := by
  -- By induction on the fuel: a payload inside another one is decoded with less.
  intro limit
  induction limit with
  | zero =>
    intro p w hw hdepth
    rcases writtenAs_iff.mp hw with ⟨_, rfl⟩ | ⟨ms, rfl, -⟩
    · exact decodeWithin_toJson p _ (Nat.lt_succ_of_le hdepth)
    · exact absurd hdepth (Nat.not_succ_le_zero _)
  | succ limit ih =>
    intro p w hw hdepth
    rcases writtenAs_iff.mp hw with ⟨_, rfl⟩ | ⟨ms, rfl, hms⟩
    · exact decodeWithin_toJson p _ (Nat.lt_succ_of_le hdepth)
    · obtain ⟨ms', hms', hsub, -, htag⟩ :=
        hms.exists_fields p.writtenFields_ne_tagKey (lookup_name p.kind) "VariablesEffect"
      rw [decodeWithin, htag]
      exact ofFields_written ih p hms' fun m hm => depth_le_of_members hdepth m (hsub m hm)

theorem decodes (p : Payload) (w : Written) (h : p.WrittenAs w) : decode w.value = .ok p :=
  decodes_within w.value.depth p w h (Nat.le_refl _)

end Payload

/-! ## Effects -/

namespace Effect

mutual

/-- How an effect is written. An empty payload of a footprint may be missing. -/
def WrittenAs : Effect → Written → Prop
  | leaf f => Written.Spells (leaf f).toJson
      [tagField "concrete", f.reads.asField "read", f.updates.asField "update",
        f.temporal.asField "temporal"]
  | arrow params result => Written.Spells (arrow params result).toJson
      [tagField "arrow", .required "params" fun w => ∃ ws, w = .arr ws ∧ WrittenAsAll params ws,
        .required "result" result.WrittenAs]

/-- How each effect of a list is written. -/
def WrittenAsAll : List Effect → List Written → Prop
  | [], ws => ws = []
  | e :: rest, ws => ∃ w more, ws = w :: more ∧ e.WrittenAs w ∧ WrittenAsAll rest more

end

/-- The fields of an effect beside its kind. -/
def writtenFields : Effect → List Field
  | leaf f =>
    [f.reads.asField "read", f.updates.asField "update", f.temporal.asField "temporal"]
  | arrow params result =>
    [.required "params" fun w => ∃ ws, w = .arr ws ∧ WrittenAsAll params ws,
      .required "result" result.WrittenAs]

theorem writtenAs_iff {e : Effect} {w : Written} :
    e.WrittenAs w ↔ w.Spells e.toJson (tagField e.kind.name :: e.writtenFields) := by
  cases e <;> (rw [WrittenAs]; rfl)

theorem writtenFields_ne_tagKey (e : Effect) : tagKey ∉ e.writtenFields.map Field.key := by
  have hleaf : tagKey ∉ ["read", "update", "temporal"] := by decide
  have harrow : tagKey ∉ ["params", "result"] := by decide
  cases e with
  | leaf f => exact hleaf
  | arrow params result => exact harrow

variable {inner : Decoder Effect} {limit : Nat}

theorem decodes_params (h : ∀ e w, e.WrittenAs w → Decodes limit inner w e) :
    ∀ {es : List Effect} {ws : List Written}, WrittenAsAll es ws →
      List.Forall₂ (Decodes limit inner) ws es
  | [], _, rfl => .nil
  | e :: _, _, ⟨w, _, rfl, hw, hmore⟩ => .cons (h e w hw) (decodes_params h hmore)

theorem builds_leaf (f : Footprint) :
    leafShape.Builds (Decodes limit) (leaf f).writtenFields
      (fun seen => ⟨taken "read" seen f.reads, taken "update" seen f.updates,
        taken "temporal" seen f.temporal⟩) (leaf f) where
  blank := rfl
  keys := rfl
  step := by
    simp only [writtenFields, List.forall_mem_cons]
    exact ⟨builds_part rfl (fun _ => rfl) (fun _ => by simp) fun w hw _ => f.reads.decodes w hw,
      builds_part rfl (fun _ => rfl) (fun _ => by simp) fun w hw _ => f.updates.decodes w hw,
      builds_part rfl (fun _ => rfl) (fun _ => by simp) fun w hw _ => f.temporal.decodes w hw,
      List.forall_mem_nil _⟩
  close := by
    intro seen hseen
    simp only [writtenFields, List.forall_mem_cons, Payload.mayLack_asField,
      Payload.key_asField] at hseen
    obtain ⟨hreads, hupdates, htemporal, -⟩ := hseen
    simp only [leafShape, taken_getD hreads, taken_getD hupdates, taken_getD htemporal]

theorem builds_arrow (h : ∀ e w, e.WrittenAs w → Decodes limit inner w e) (params : List Effect)
    (result : Effect) :
    (arrowShape inner).Builds (Decodes limit) (arrow params result).writtenFields
      (fun seen => ⟨taken "params" seen params, taken "result" seen result⟩)
      (arrow params result) where
  blank := rfl
  keys := rfl
  step := by
    have hparams : ∀ w, (∃ ws, w = .arr ws ∧ WrittenAsAll params ws) →
        Decodes limit (decodeList inner) w params := by
      rintro _ ⟨ws, rfl, hws⟩
      exact decodes_list (decodes_params h hws)
    simp only [writtenFields, List.forall_mem_cons]
    exact ⟨builds_part rfl (fun _ => rfl) (fun _ => by simp) hparams,
      builds_part rfl (fun _ => rfl) (fun _ => by simp) (h result), List.forall_mem_nil _⟩
  close := by
    intro seen hseen
    simp only [writtenFields, List.forall_mem_cons, Field.mayLack_required, Field.key_required,
      false_or] at hseen
    obtain ⟨hparams, hresult, -⟩ := hseen
    simp only [arrowShape, need_taken hparams, need_taken hresult]
    rfl

theorem ofFields_written (h : ∀ e w, e.WrittenAs w → Decodes limit inner w e) (e : Effect)
    {ms : List (String × Written)} (hms : HasFields e.writtenFields ms)
    (hdepth : ∀ m ∈ ms, m.2.value.depth ≤ limit) :
    ofFields inner e.kind (Written.obj ms).value = .ok e := by
  cases e with
  | leaf f => exact decodeRecord_of_fields (builds_leaf f) hms hdepth taggedLeftOver
  | arrow params result =>
    exact decodeRecord_of_fields (builds_arrow h params result) hms hdepth taggedLeftOver

/-- An effect is decoded as it is written, with fuel above the depth. -/
theorem decodes_within :
    ∀ limit (e : Effect) (w : Written), e.WrittenAs w →
      Decodes limit (decodeWithin (limit + 1)) w e := by
  -- Parameters and results are decoded with less fuel, payloads with fuel of their own.
  intro limit
  induction limit with
  | zero =>
    intro e w hw hdepth
    rcases writtenAs_iff.mp hw with ⟨_, rfl⟩ | ⟨ms, rfl, -⟩
    · exact decodeWithin_toJson e _ (Nat.lt_succ_of_le hdepth)
    · exact absurd hdepth (Nat.not_succ_le_zero _)
  | succ limit ih =>
    intro e w hw hdepth
    rcases writtenAs_iff.mp hw with ⟨_, rfl⟩ | ⟨ms, rfl, hms⟩
    · exact decodeWithin_toJson e _ (Nat.lt_succ_of_le hdepth)
    · obtain ⟨ms', hms', hsub, -, htag⟩ :=
        hms.exists_fields e.writtenFields_ne_tagKey (lookup_name e.kind) "Effect"
      rw [decodeWithin, htag]
      exact ofFields_written ih e hms' fun m hm => depth_le_of_members hdepth m (hsub m hm)

theorem decodes (e : Effect) (w : Written) (h : e.WrittenAs w) : decode w.value = .ok e :=
  decodes_within w.value.depth e w h (Nat.le_refl _)

/-- **An effect is read as it is written.** -/
theorem takes (e : Effect) (w : Written) (h : e.WrittenAs w) : Takes read w e := by
  rcases writtenAs_iff.mp h with ⟨integral, rfl⟩ | ⟨ms, rfl, hms⟩
  · exact takes_plain e.reads_toJson integral
  · obtain ⟨ms', hms', hsub, htakes, -⟩ :=
      hms.exists_fields e.writtenFields_ne_tagKey (lookup_name e.kind) "Effect"
    intro budget rest hdepth hrest
    obtain ⟨rest', hrest', hread⟩ := htakes budget rest hdepth hrest
    refine ⟨rest', hrest', ?_⟩
    have hfields : ofFields decode e.kind (Written.obj ms').value = .ok e :=
      ofFields_written (fun e w hw _ => e.decodes w hw) e hms'
        (depth_le_of_members (Nat.le_succ _))
    rw [read, hread]
    show (ofFields decode e.kind (Written.obj ms').value >>= _) = _
    rw [hfields]
    rfl

/-- The effect that touches nothing, written without its payloads. -/
def bare : Written :=
  .obj [("kind", .plain (.str "concrete") (.str _))]

theorem writtenAs_bare : (leaf {}).WrittenAs bare := by
  refine writtenAs_iff.mpr (Or.inr ⟨_, rfl, ?_, ?_, ?_⟩)
  · simp [kind, Kind.name, writtenFields]
  · simp
  · simp [writtenFields]

end Effect

/-! ## Modules -/

namespace Span

/-- The fields of a span. -/
def writtenFields (s : Span) : List Field :=
  [.exactly "line" (.word s.line), .exactly "column" (.word s.column)]

/-- How a span is written. -/
def WrittenAs (s : Span) : Written → Prop :=
  Written.Spells s.toJson s.writtenFields

theorem builds (s : Span) :
    shape.Builds Takes s.writtenFields
      (fun seen => ⟨taken "line" seen s.line, taken "column" seen s.column⟩) s where
  blank := rfl
  keys := rfl
  step := by
    simp only [writtenFields, List.forall_mem_cons]
    exact ⟨builds_field rfl (fun _ => rfl) (fun _ => by simp) (takes_of_is (reads_word64 _ s.line)),
      builds_field rfl (fun _ => rfl) (fun _ => by simp) (takes_of_is (reads_word64 _ s.column)),
      List.forall_mem_nil _⟩
  close := by
    intro seen hseen
    simp only [writtenFields, List.forall_mem_cons, Field.mayLack_exactly, Field.key_exactly,
      false_or] at hseen
    obtain ⟨hline, hcolumn, -⟩ := hseen
    simp only [shape, need_taken hline, need_taken hcolumn]
    rfl

theorem takes (s : Span) (w : Written) (h : s.WrittenAs w) : Takes read w s :=
  takes_spells s.builds s.reads_toJson h

theorem takes_nullable (s : Span) (w : Written) (h : s.WrittenAs w) :
    Takes (nullable read) w (some s) := by
  intro budget rest hdepth hrest
  obtain ⟨rest', hrest', hread⟩ := s.takes w h budget rest hdepth hrest
  have hnullable : nullable read budget (w.before rest) = (read.map some) budget (w.before rest) := by
    rcases h with ⟨_, rfl⟩ | ⟨ms, rfl, -⟩ <;> rfl
  exact ⟨rest', hrest', hnullable.trans (mapScan_eq_ok_iff.mpr ⟨s, hread, rfl⟩)⟩

end Span

namespace Definition

/-- The fields of a definition. -/
def writtenFields (d : Definition) : List Field :=
  [.exactly "id" (.word d.id), .exactly "name" (.str d.name),
    .exactly "qualifier" d.qualifier.toJson,
    { key := "span"
      mayLack := d.span = none
      spelled := fun w => ∃ s, d.span = some s ∧ s.WrittenAs w }]

/-- How a definition is written. -/
def WrittenAs (d : Definition) : Written → Prop :=
  Written.Spells d.toJson d.writtenFields

theorem builds (d : Definition) :
    shape.Builds Takes d.writtenFields
      (fun seen => ⟨taken "id" seen d.id, taken "name" seen d.name,
        taken "qualifier" seen d.qualifier, taken "span" seen d.span⟩) d where
  blank := rfl
  keys := rfl
  step := by
    have hspan : ∀ w, (∃ s, d.span = some s ∧ s.WrittenAs w) →
        Takes (nullable Span.read) w d.span := by
      rintro w ⟨s, hs, hw⟩
      rw [hs]
      exact s.takes_nullable w hw
    simp only [writtenFields, List.forall_mem_cons]
    exact ⟨builds_field rfl (fun _ => rfl) (fun _ => by simp) (takes_of_is (reads_word64 _ d.id)),
      builds_field rfl (fun _ => rfl) (fun _ => by simp) (takes_of_is (reads_text d.name)),
      builds_field rfl (fun _ => rfl) (fun _ => by simp) (takes_of_is d.qualifier.reads_toJson),
      builds_field rfl (fun _ => rfl) (fun _ => by simp) hspan, List.forall_mem_nil _⟩
  close := by
    intro seen hseen
    simp only [writtenFields, List.forall_mem_cons, Field.mayLack_exactly, Field.key_exactly,
      false_or] at hseen
    obtain ⟨hid, hname, hqualifier, hspan, -⟩ := hseen
    simp only [shape, need_taken hid, need_taken hname, need_taken hqualifier, taken_getD hspan]
    rfl

theorem takes (d : Definition) (w : Written) (h : d.WrittenAs w) : Takes read w d :=
  takes_spells d.builds d.reads_toJson h

end Definition

namespace Module

/-- The fields of a module. -/
def writtenFields (m : Module) : List Field :=
  [.exactly "name" (.str m.name),
    { key := "definitions"
      mayLack := m.definitions = []
      spelled := fun w =>
        ∃ ws, w = .arr ws ∧ List.Forall₂ (fun w d => d.WrittenAs w) ws m.definitions }]

/-- How a module is written. -/
def WrittenAs (m : Module) : Written → Prop :=
  Written.Spells m.toJson m.writtenFields

theorem builds (m : Module) :
    shape.Builds Takes m.writtenFields
      (fun seen => ⟨taken "name" seen m.name, taken "definitions" seen m.definitions⟩) m where
  blank := rfl
  keys := rfl
  step := by
    have hdefinitions : ∀ w,
        (∃ ws, w = .arr ws ∧ List.Forall₂ (fun w d => d.WrittenAs w) ws m.definitions) →
        Takes (list Definition.read) w m.definitions := by
      rintro _ ⟨ws, rfl, hws⟩
      exact takes_list (ignoresSpace_record _) (hws.imp fun w d => d.takes w)
    simp only [writtenFields, List.forall_mem_cons]
    exact ⟨builds_field rfl (fun _ => rfl) (fun _ => by simp) (takes_of_is (reads_text m.name)),
      builds_field rfl (fun _ => rfl) (fun _ => by simp) hdefinitions, List.forall_mem_nil _⟩
  close := by
    intro seen hseen
    simp only [writtenFields, List.forall_mem_cons, Field.mayLack_exactly, Field.key_exactly,
      false_or] at hseen
    obtain ⟨hname, hdefinitions, -⟩ := hseen
    simp only [shape, need_taken hname, taken_getD hdefinitions]
    rfl

theorem takes (m : Module) (w : Written) (h : m.WrittenAs w) : Takes read w m :=
  takes_spells m.builds m.reads_toJson h

end Module

/-! ## Inputs -/

/-- How the effects of a module are written: their entries in any order. -/
def EffectMap.WrittenAs (effects : EffectMap) (w : Written) : Prop :=
  ∃ ms entries, w = .obj ms ∧ entries.Perm effects.entries ∧
    List.Forall₂ (fun m e => m.1 = toString e.1.toNat ∧ e.2.WrittenAs m.2) ms entries

theorem EffectMap.takes (effects : EffectMap) (w : Written) (h : EffectMap.WrittenAs effects w) :
    Takes (wordMap Effect.read) w effects := by
  obtain ⟨ms, entries, rfl, hentries, hms⟩ := h
  exact takes_wordMap hentries (hms.imp fun m e hm => ⟨hm.1, e.2.takes m.2 hm.2⟩)

namespace CheckInput

/-- The fields of an input. -/
def writtenFields (x : CheckInput) : List Field :=
  [.required "module" x.module.WrittenAs,
    { key := "effects"
      mayLack := x.effects = .empty
      spelled := EffectMap.WrittenAs x.effects }]

/-- How an input is written. -/
def WrittenAs (x : CheckInput) : Written → Prop :=
  Written.Spells x.toJson x.writtenFields

theorem builds (x : CheckInput) :
    shape.Builds Takes x.writtenFields
      (fun seen => ⟨taken "module" seen x.module, taken "effects" seen x.effects⟩) x where
  blank := rfl
  keys := rfl
  step := by
    simp only [writtenFields, List.forall_mem_cons]
    exact ⟨builds_field rfl (fun _ => rfl) (fun _ => by simp) x.module.takes,
      builds_field rfl (fun _ => rfl) (fun _ => by simp) (EffectMap.takes x.effects),
      List.forall_mem_nil _⟩
  close := by
    intro seen hseen
    simp only [writtenFields, List.forall_mem_cons, Field.mayLack_required, Field.key_required,
      false_or] at hseen
    obtain ⟨hmodule, heffects, -⟩ := hseen
    simp only [shape, need_taken hmodule, taken_getD heffects]
    rfl

theorem takes (x : CheckInput) (w : Written) (h : x.WrittenAs w) : Takes read w x :=
  takes_spells x.builds x.reads_toJson h

/-- An input may be written the way it is printed. -/
theorem exists_writtenAs_compact (x : CheckInput) :
    ∃ w, x.WrittenAs w ∧ w.text = x.toJson.compact :=
  ⟨.plain x.toJson x.integral_toJson, Or.inl ⟨_, rfl⟩, rfl⟩

/-- **An input is read however it is written.** At any depth of its document, members of objects may
be in another order, empty payloads, definitions and effects left out, members added that nothing
asks for, whatever documents their values are, and entries of the map of effects put in another order:
a text that is at most 127 levels deep is read as the same input. -/
theorem ofDocument_written {x : CheckInput} {w : Written} (h : x.WrittenAs w)
    (hdepth : w.value.depth ≤ 127) : ofDocument w.text = .ok x :=
  readAll_text (x.takes w h) hdepth

/-! ### An input rearranged -/

/-- A module with an action, and the effects of the action and of something else. -/
def action : CheckInput where
  module := { name := "m", definitions := [{ id := 7, name := "f", qualifier := .action }] }
  effects := .ofList [(7, .leaf { updates := .of ["x"] }), (10, .arrow [] (.leaf {}))]

/-- A document, printed over several lines, that is no part of an input. -/
def note : Foreign where
  text := (Json.arr [.bool true, .obj [("a", .null)]]).pretty
  content := .arr [.bool true, .obj [("a", .null)]]
  reads := by
    refine readAll_pretty (v := .arr [.bool true, .obj [("a", .null)]]) (.arr ?_) (by decide)
    exact List.forall_mem_cons.mpr ⟨.bool true, List.forall_mem_singleton.mpr
      (.obj (List.forall_mem_singleton.mpr .null))⟩

/-- An arrow with its members the other way round. -/
def reversed : Written :=
  .obj [("result", Effect.bare), ("params", .arr []), ("kind", .plain (.str "arrow") (.str _))]

/-- A set of names with a note in front. -/
def noted : Written :=
  .obj
    [("note", .foreign note),
      ("vars", .plain (.arr [.str "x"]) (.arr (List.forall_mem_singleton.mpr (.str "x")))),
      ("kind", .plain (.str "concrete") (.str _))]

/-- A footprint that only updates, between two notes. -/
def notedTwice : Written :=
  .obj
    [("update", noted), ("note", .foreign note), ("kind", .plain (.str "concrete") (.str _)),
      ("note", .foreign note)]

/-- The input with all of this in it. -/
def actionRearranged : Written :=
  .obj
    [("effects", .obj [("10", reversed), ("7", notedTwice)]), ("note", .foreign note),
      ("module", .plain action.module.toJson action.module.integral_toJson)]

theorem writtenAs_reversed : Effect.WrittenAs (.arrow [] (.leaf {})) reversed := by
  refine Effect.writtenAs_iff.mpr (Or.inr ⟨_, rfl, ?_, ?_, ?_⟩)
  · simp [Effect.kind, Effect.Kind.name, Effect.writtenFields, Effect.WrittenAsAll,
      Effect.writtenAs_bare]
  · simp
  · simp [Effect.writtenFields]

theorem writtenAs_noted : Payload.WrittenAs (.of ["x"]) noted := by
  have hvars : (NameSet.ofList ["x"]).toList = ["x"] := rfl
  refine Payload.writtenAs_iff.mpr (Or.inr ⟨_, rfl, ?_, ?_, ?_⟩)
  · simp [Payload.of, Payload.kind, Payload.Kind.name, Payload.writtenFields, hvars]
  · simp [Payload.of, Payload.writtenFields]
  · simp [Payload.of, Payload.writtenFields]

theorem writtenAs_notedTwice :
    Effect.WrittenAs (.leaf { updates := .of ["x"] }) notedTwice := by
  refine Effect.writtenAs_iff.mpr (Or.inr ⟨_, rfl, ?_, ?_, ?_⟩)
  · simp [Effect.kind, Effect.Kind.name, Effect.writtenFields, writtenAs_noted]
  · simp [Effect.writtenFields]
  · simp [Effect.writtenFields]

theorem writtenAs_actionRearranged : action.WrittenAs actionRearranged := by
  have heffects : EffectMap.WrittenAs action.effects
      (.obj [("10", reversed), ("7", notedTwice)]) :=
    ⟨_, _, rfl, .swap (7, _) (10, _) [],
      .cons ⟨rfl, writtenAs_reversed⟩ (.cons ⟨rfl, writtenAs_notedTwice⟩ .nil)⟩
  refine Or.inr ⟨_, rfl, ?_, ?_, ?_⟩
  · simp [writtenFields, heffects, Module.WrittenAs, Written.Spells]
  · simp [writtenFields]
  · simp [writtenFields]

theorem ofDocument_written_rearranged :
    action.WrittenAs actionRearranged ∧ actionRearranged.value.depth ≤ 127 ∧
      ofDocument actionRearranged.text = .ok action :=
  ⟨writtenAs_actionRearranged, by decide, ofDocument_written writtenAs_actionRearranged (by decide)⟩

end CheckInput

end OperatorModes
