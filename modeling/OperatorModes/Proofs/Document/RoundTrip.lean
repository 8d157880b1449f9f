import OperatorModes.Document.Config
import OperatorModes.Document.Module
import OperatorModes.Proofs.Document.Effect

/-!
# Inputs and configurations read back

Every record of an input or a configuration is read back from its document, each field by the lemma
of its type. An absent span leaves its member out and a present one is never written as `null`, so
the two are kept apart; identifiers are written in decimal and read as the same word. All that is
left to say is what a whole document comes to, which is the same for every type:

> `input_documents_roundTrip`: what is written at most 127 levels deep is read back, and what is
> deeper is refused.
-/

namespace OperatorModes

open Json

/-! ## Records -/

theorem Qualifier.reads_toJson (q : Qualifier) : Reads read q.toJson q := by
  cases q <;> exact reads_variant rfl

theorem Span.reads_toJson (s : Span) : Reads read s.toJson s := by
  have hfills : shape.Fills [("line", .word s.line), ("column", .word s.column)] shape.blank
      ⟨s.line, s.column⟩ :=
    .cons rfl rfl (reads_field (reads_word64 _ s.line) _)
      (.cons rfl rfl (reads_field (reads_word64 _ s.column) _) (.nil _))
  exact reads_record hfills rfl

theorem Definition.reads_toJson (d : Definition) : Reads read d.toJson d := by
  obtain ⟨id, name, qualifier, span⟩ := d
  have hfills : ∀ {ms : List (String × Json)} {final : Draft},
      shape.Fills ms ⟨id, name, qualifier, none⟩ final →
      shape.Fills (("id", .word id) :: ("name", .str name) :: ("qualifier", qualifier.toJson) :: ms)
        shape.blank final := fun hspan =>
    .cons rfl rfl (reads_field (reads_word64 _ id) _)
      (.cons rfl rfl (reads_field (reads_text name) _)
        (.cons rfl rfl (reads_field qualifier.reads_toJson _) hspan))
  cases span with
  | none => exact reads_record (hfills (.nil _)) rfl
  | some span =>
    have hspan := reads_nullable span.reads_toJson
    exact reads_record (hfills (.cons rfl rfl (reads_field hspan _) (.nil _))) rfl

theorem Module.reads_toJson (m : Module) : Reads read m.toJson m := by
  have hlist : Reads (list Definition.read) (.arr (m.definitions.map Definition.toJson))
      m.definitions := reads_list fun d _ => d.reads_toJson
  have hfills : shape.Fills
      [("name", .str m.name), ("definitions", .arr (m.definitions.map Definition.toJson))]
      shape.blank ⟨m.name, m.definitions⟩ :=
    .cons rfl rfl (reads_field (reads_text m.name) _)
      (.cons rfl rfl (reads_field hlist _) (.nil _))
  exact reads_record hfills rfl

theorem CheckInput.reads_toJson (input : CheckInput) : Reads read input.toJson input := by
  have hmap : Reads (wordMap Effect.read) (input.effects.toJson Effect.toJson) input.effects :=
    reads_wordMap fun e _ => e.2.reads_toJson
  have hfills : shape.Fills
      [("module", input.module.toJson), ("effects", input.effects.toJson Effect.toJson)]
      shape.blank ⟨input.module, input.effects⟩ :=
    .cons rfl rfl (reads_field input.module.reads_toJson _)
      (.cons rfl rfl (reads_field hmap _) (.nil _))
  exact reads_record hfills rfl

theorem CheckerConfig.reads_toJson (c : CheckerConfig) : Reads read c.toJson c := by
  have hfills : shape.Fills
      [("report_suggestions", .bool c.reportSuggestions),
        ("deny_suggestions", .bool c.denySuggestions)]
      shape.blank ⟨c.reportSuggestions, c.denySuggestions⟩ :=
    .cons rfl rfl (reads_field (reads_boolean c.reportSuggestions) _)
      (.cons rfl rfl (reads_field (reads_boolean c.denySuggestions) _) (.nil _))
  exact reads_record hfills rfl

theorem BackendConfig.reads_toJson (c : BackendConfig) : Reads read c.toJson c := by
  have hfills : shape.Fills
      [("address", .str c.address), ("retry_interval_ms", .word c.retryInterval),
        ("connect_timeout_ms", .word c.connectTimeout)]
      shape.blank ⟨c.address, c.retryInterval, c.connectTimeout⟩ :=
    .cons rfl rfl (reads_field (reads_text c.address) _)
      (.cons rfl rfl (reads_field (reads_word64 _ c.retryInterval) _)
        (.cons rfl rfl (reads_field (reads_word64 _ c.connectTimeout) _) (.nil _)))
  exact reads_record hfills rfl

theorem Config.reads_toJson (c : Config) : Reads read c.toJson c := by
  have hfills : shape.Fills [("checker", c.checker.toJson), ("backend", c.backend.toJson)]
      shape.blank ⟨c.checker, c.backend⟩ :=
    .cons rfl rfl (reads_field c.checker.reads_toJson _)
      (.cons rfl rfl (reads_field c.backend.reads_toJson _) (.nil _))
  exact reads_record hfills rfl

/-! ## Only integers -/

theorem SortedMap.integral_toJson {α : Type} {entry : α → Json} (m : SortedMap UInt64 α)
    (h : ∀ x, Integral (entry x)) : Integral (m.toJson entry) := by
  refine .obj fun member hmember => ?_
  obtain ⟨e, -, rfl⟩ := List.mem_map.mp hmember
  exact h e.2

theorem Span.integral_toJson (s : Span) : Integral s.toJson := by
  refine .obj ?_
  simp only [List.forall_mem_cons]
  exact ⟨integral_word s.line, integral_word s.column, List.forall_mem_nil _⟩

theorem Definition.integral_toJson (d : Definition) : Integral d.toJson := by
  obtain ⟨id, name, qualifier, span⟩ := d
  refine .obj ?_
  simp only [List.forall_mem_append, List.forall_mem_cons]
  refine ⟨⟨integral_word id, .str name, .str _, List.forall_mem_nil _⟩, ?_⟩
  cases span with
  | none => exact List.forall_mem_nil _
  | some span => exact List.forall_mem_singleton.mpr span.integral_toJson

theorem Module.integral_toJson (m : Module) : Integral m.toJson := by
  refine .obj ?_
  simp only [List.forall_mem_cons]
  exact ⟨.str m.name, integral_arr_map fun d _ => d.integral_toJson, List.forall_mem_nil _⟩

theorem CheckInput.integral_toJson (input : CheckInput) : Integral input.toJson := by
  refine .obj ?_
  simp only [List.forall_mem_cons]
  exact ⟨input.module.integral_toJson, input.effects.integral_toJson Effect.integral_toJson,
    List.forall_mem_nil _⟩

/-! ## The formats of the inputs -/

/-- **The input formats lose nothing.** Payloads, effects, modules, configurations and whole inputs
are read back as they were written when their documents are at most 127 levels deep, and are refused
as too deep when they are deeper. -/
theorem input_documents_roundTrip :
    RoundTrips Payload.toJson Payload.read ∧ RoundTrips Effect.toJson Effect.read ∧
      RoundTrips Module.toJson Module.read ∧ RoundTrips Config.toJson Config.read ∧
      RoundTrips CheckInput.toJson CheckInput.read :=
  ⟨roundTrips_of_reads Payload.reads_toJson, roundTrips_of_reads Effect.reads_toJson,
    roundTrips_of_reads Module.reads_toJson, roundTrips_of_reads Config.reads_toJson,
    roundTrips_of_reads CheckInput.reads_toJson⟩

end OperatorModes
