import OperatorModes.Backend.Verify
import OperatorModes.Proofs.Json.Order
import OperatorModes.Proofs.Json.Variant

/-!
# Requests read back

A request is written with its configuration as it is and read back with the configuration in canonical
form. Without floating-point numbers and repeated keys that is the same request. The object of the
request is one level around the configuration, which takes one level from what a document may have: a
configuration of 126 levels is the deepest that arrives, and a request with a deeper one is refused as a
whole (`Arrives`). What is sent when a check is submitted is read off a record that the verifier keeps of
the requests made of it (`run_submitCheck_recording`), which is one such request:

> `request_arrives`: every command and every submitted check arrives with the configuration it was
> given.
-/

namespace OperatorModes.Backend

open Json

theorem Command.reads_name (command : Command) : Reads read (.str command.name) command := by
  cases command <;> exact reads_variant rfl

namespace Request

/-- Two requests are the same: they differ at most in the order of members in their configurations. -/
structure Same (r s : Request) : Prop where
  command : r.command = s.command
  config : r.config.SameValue s.config

/-- **How a request arrives as a text**: as itself, if its configuration has at most 126 levels, with
every member in its place if they were in key order; and else not at all. -/
structure Arrives (r : Request) (text : String) : Prop where
  shallow : r.config.depth ≤ 126 →
    ∃ s, readAll read text = .ok s ∧ r.Same s ∧ (r.config.KeyOrdered → s = r)
  deep : 126 < r.config.depth → readAll read text = .error .tooDeep

/-- The request with its configuration in canonical form. -/
def canonical (r : Request) : Request :=
  { r with config := r.config.canonical }

/-! ## Reading -/

/-- What is read of a request is its canonical form. -/
theorem reads_toJson {r : Request} (h : r.config.Integral) : Reads read r.toJson r.canonical := by
  have hfills : shape.Fills [("cmd", .str r.command.name), ("config", r.config)] shape.blank
      ⟨r.command, r.config.canonical⟩ :=
    .cons rfl rfl (reads_field r.command.reads_name _)
      (.cons rfl rfl (reads_field (reads_value h) _) (.nil _))
  exact reads_record hfills rfl

/-- The object of a request is one level around its configuration. -/
theorem depth_toJson (r : Request) : r.toJson.depth = r.config.depth + 1 := by
  have hcommand : (Json.str r.command.name).depth = 0 := rfl
  show max (Json.str r.command.name).depth (max r.config.depth 0) + 1 = _
  rw [hcommand, Nat.zero_max, Nat.max_zero]

theorem readAll_compact_toJson {r : Request} (h : r.config.Integral) :
    readAll read r.toJson.compact = within (r.config.depth + 1) depthLimit r.canonical := by
  rw [readAll_compact (reads_toJson h), depth_toJson]

/-! ## Arriving -/

theorem same_canonical {r : Request} (h : r.config.Unrepeated) : r.Same r.canonical where
  command := rfl
  config := sameValue_canonical h

theorem canonical_of_keyOrdered {r : Request} (h : r.config.KeyOrdered) : r.canonical = r := by
  rw [canonical, Json.canonical_of_keyOrdered h]

theorem arrives_compact {r : Request} (hintegral : r.config.Integral)
    (hunrepeated : r.config.Unrepeated) : Arrives r r.toJson.compact where
  shallow := by
    intro hdepth
    refine ⟨r.canonical, ?_, same_canonical hunrepeated, canonical_of_keyOrdered⟩
    rw [readAll_compact_toJson hintegral]
    exact if_pos (Nat.succ_le_succ hdepth)
  deep := by
    intro hdepth
    rw [readAll_compact_toJson hintegral]
    exact if_neg (Nat.not_le.mpr (Nat.succ_lt_succ hdepth))

end Request

/-! ## Submitting -/

section

variable {σ : Type} (verifier : Verifier σ) (state : σ)

/-- A recording verifier answers as the verifier does and puts the request after those made before. -/
theorem run_recording (request : Request) (made : List Request) :
    (verifier.recording request).run (state, made)
      = (((verifier request).run state).1, ((verifier request).run state).2, made ++ [request]) :=
  rfl

/-- A submission is what the verifier makes of one request. -/
theorem run_submitCheck (config : Json) :
    (submitCheck verifier config).run state
      = let asked := (verifier { command := .check, config }).run state
        ({ answer := asked.1, events := answerEvents asked.1 }, asked.2) :=
  rfl

/-- A submission goes on in the same way when the requests made of the verifier are recorded, and one
is. -/
theorem run_submitCheck_recording (config : Json) (made : List Request) :
    (submitCheck verifier.recording config).run (state, made)
      = (((submitCheck verifier config).run state).1, ((submitCheck verifier config).run state).2,
          made ++ [{ command := .check, config }]) := by
  rw [run_submitCheck, run_submitCheck, run_recording]

end

/-- **Requests arrive.** A configuration without floating-point numbers and repeated keys can be sent
with every command, and what is sent arrives as that request. When it is submitted to be checked, the
record of a verifier shows one request more, which is for that, whatever the verifier is and has been
asked before. What the verifier answers to it is returned, and the verifier is left as the one request
leaves it. -/
theorem request_arrives {config : Json} (hintegral : config.Integral)
    (hunrepeated : config.Unrepeated) :
    (∀ command, ∃ text, Request.encode { command, config } = .ok text ∧
      Request.Arrives { command, config } text) ∧
    ∀ (σ : Type) (verifier : Verifier σ) (state : σ) (made : List Request), ∃ request text,
      let asked := (verifier request).run state
      let submitted := (submitCheck verifier config).run state
      let recorded := (submitCheck verifier.recording config).run (state, made)
      recorded.2.2 = made ++ [request] ∧ request.command = .check ∧ request.config = config ∧
        request.encode = .ok text ∧ request.Arrives text ∧
        submitted.1.answer = asked.1 ∧ submitted.2 = asked.2 ∧
        recorded.1 = submitted.1 ∧ recorded.2.1 = submitted.2 := by
  have hsent : ∀ command, ∃ text, Request.encode { command, config } = .ok text ∧
      Request.Arrives { command, config } text := fun command =>
    ⟨_, rfl, Request.arrives_compact hintegral hunrepeated⟩
  refine ⟨hsent, fun σ verifier state made => ?_⟩
  obtain ⟨text, hencode, harrives⟩ := hsent .check
  refine ⟨{ command := .check, config }, text, ?_⟩
  rw [run_submitCheck_recording, run_submitCheck]
  exact ⟨rfl, rfl, rfl, hencode, harrives, rfl, rfl, rfl, rfl⟩

/-- A key that has to be escaped, and the least and the greatest integer: a verifier that counts the
requests made of it and returns the configuration it is sent shows that it was asked once and sent all
of it, and the text of the request is read as the request. -/
theorem request_arrives_ordered :
    let limits : List Json := [.num (.int (-0x8000000000000000)), .num (.int 0xFFFFFFFFFFFFFFFF)]
    let config : Json := .obj [("\"a\\b\n", .obj [("deep", .null)]), ("limits", .arr limits)]
    let verifier : Verifier Nat := fun r count => (.ok (.success r.config), count + 1)
    let submitted := (submitCheck verifier config).run 0
    let recorded := (submitCheck verifier.recording config).run (0, [])
    ∃ request text, recorded.2.2 = [request] ∧ request.command = .check ∧
      request.config = config ∧ request.encode = .ok text ∧
      readAll Request.read text = .ok request ∧ submitted.1.answer = .ok (.success config) ∧
      submitted.2 = 1 := by
  intro limits config verifier submitted recorded
  have hintegral : config.Integral := by
    have hlimits : ∀ v ∈ limits, v.Integral :=
      List.forall_mem_cons.mpr ⟨.int ⟨by decide, by decide⟩,
        List.forall_mem_singleton.mpr (.int ⟨by decide, by decide⟩)⟩
    have hinner : (Json.obj [("deep", .null)]).Integral :=
      .obj (List.forall_mem_singleton.mpr .null)
    exact .obj (List.forall_mem_cons.mpr ⟨hinner, List.forall_mem_singleton.mpr (.arr hlimits)⟩)
  have hordered : config.KeyOrdered := by
    have hlimits : ∀ v ∈ limits, v.KeyOrdered :=
      List.forall_mem_cons.mpr ⟨.num _, List.forall_mem_singleton.mpr (.num _)⟩
    have hinner : (Json.obj [("deep", .null)]).KeyOrdered :=
      .obj (List.pairwise_singleton _ _) (List.forall_mem_singleton.mpr .null)
    exact .obj (by decide)
      (List.forall_mem_cons.mpr ⟨hinner, List.forall_mem_singleton.mpr (.arr hlimits)⟩)
  obtain ⟨request, text, hmade, hcommand, hconfig, hencode, harrives, hanswer, hstate, -⟩ :=
    (request_arrives hintegral hordered.unrepeated).2 Nat verifier 0 []
  have hdepth : request.config.depth ≤ 126 := by
    rw [hconfig]
    decide
  obtain ⟨s, hread, -, heq⟩ := harrives.shallow hdepth
  rw [heq (hconfig ▸ hordered)] at hread
  rw [← hconfig]
  exact ⟨request, text, hmade, hcommand, rfl, hencode, hread, hanswer, hstate⟩

end OperatorModes.Backend
