import OperatorModes.Proofs.Json.Variant
import OperatorModes.Proofs.Json.Written

/-!
# Objects by their fields

What is asked of an object whose members stand in any order, some of them missing and others added: it
has its fields (`HasFields`). A shape that reads such an object goes through drafts that depend on
which fields have been read and not on the order in which they were; so `Shape.Builds` describes a
draft by the keys seen so far, with one condition for each field, and what follows for whole objects
is the same for records in text and in documents:

> `takes_record`: an object with the fields is read as the value
> `decodeRecord_of_fields`: and decoded as the value when it has been read as a document before

A tagged variant has its tag for a field, wherever it stands (`HasFields.exists_untagged`).
-/

namespace OperatorModes.Json

variable {F : Type → Type} {α β σ τ : Type}

/-! ## Fields -/

/-- A field of an object: what spells it stands under its key, unless it may be missing. -/
structure Field where
  key : String
  mayLack : Prop
  spelled : Written → Prop

namespace Field

/-- A field that has to be there. -/
def required (key : String) (spelled : Written → Prop) : Field :=
  { key, mayLack := False, spelled }

/-- A field that is there, spelled compactly. -/
def exactly (key : String) (v : Json) : Field :=
  required key fun w => w.Is v

@[simp] theorem key_required (key : String) (spelled : Written → Prop) :
    (required key spelled).key = key :=
  rfl

@[simp] theorem mayLack_required (key : String) (spelled : Written → Prop) :
    (required key spelled).mayLack = False :=
  rfl

@[simp] theorem spelled_required (key : String) (spelled : Written → Prop) :
    (required key spelled).spelled = spelled :=
  rfl

@[simp] theorem key_exactly (key : String) (v : Json) : (exactly key v).key = key :=
  rfl

@[simp] theorem mayLack_exactly (key : String) (v : Json) : (exactly key v).mayLack = False :=
  rfl

@[simp] theorem spelled_exactly (key : String) (v : Json) :
    (exactly key v).spelled = fun w => w.Is v :=
  rfl

end Field

/-- **An object with these fields.** Its members stand in any order; each of them is a field, and the
only member under its key, or is foreign, under a key of no field; and a field is missing only if it
may be. -/
structure HasFields (fields : List Field) (ms : List (String × Written)) : Prop where
  each : ∀ m ∈ ms, (∃ f ∈ fields, m.1 = f.key ∧ f.spelled m.2) ∨
    m.1 ∉ fields.map Field.key ∧ ∃ f, m.2 = .foreign f
  once : ms.Pairwise fun m n => m.1 ∈ fields.map Field.key → m.1 ≠ n.1
  present : ∀ f ∈ fields, f.mayLack ∨ f.key ∈ ms.map Prod.fst

/-- Objects have their fields however they are edited: fields that may be missing are taken out,
foreign members under other keys are put in, and all of them are put in another order. -/
theorem HasFields.of_perm {fields : List Field} (hnodup : (fields.map Field.key).Nodup)
    {kept : List (Field × Written)} {added : List (String × Foreign)} {ms : List (String × Written)}
    (hkept : (kept.map Prod.fst).Sublist fields) (hspelled : ∀ e ∈ kept, e.1.spelled e.2)
    (hgone : ∀ f ∈ fields, f.mayLack ∨ f ∈ kept.map Prod.fst)
    (hadded : ∀ e ∈ added, e.1 ∉ fields.map Field.key)
    (hms : ms.Perm (kept.map (fun e => (e.1.key, e.2)) ++ added.map fun e => (e.1, .foreign e.2))) :
    HasFields fields ms where
  each := by
    intro m hm
    rcases List.mem_append.mp (hms.mem_iff.mp hm) with hm | hm
    · obtain ⟨e, he, rfl⟩ := List.mem_map.mp hm
      exact Or.inl ⟨e.1, hkept.subset (List.mem_map_of_mem he), rfl, hspelled e he⟩
    · obtain ⟨e, he, rfl⟩ := List.mem_map.mp hm
      exact Or.inr ⟨hadded e he, e.2, rfl⟩
  once := by
    have hsymm : ∀ {m n : String × Written}, (m.1 ∈ fields.map Field.key → m.1 ≠ n.1) →
        n.1 ∈ fields.map Field.key → n.1 ≠ m.1 :=
      fun h hn heq => h (heq ▸ hn) heq.symm
    refine (hms.pairwise_iff hsymm).mpr (List.pairwise_append.mpr ⟨?_, ?_, ?_⟩)
    · have hkeys : ((kept.map Prod.fst).map Field.key).Nodup := hnodup.sublist (hkept.map Field.key)
      rw [List.map_map] at hkeys
      refine List.pairwise_map.mpr ((List.pairwise_map.mp hkeys).imp ?_)
      exact fun hne _ => hne
    · refine List.pairwise_map.mpr (List.pairwise_iff_forall_sublist.mpr ?_)
      intro e f hsub hknown
      exact absurd hknown (hadded e (hsub.subset List.mem_cons_self))
    · intro m _ n hn hknown heq
      obtain ⟨e, he, rfl⟩ := List.mem_map.mp hn
      exact hadded e he (heq ▸ hknown)
  present := by
    refine fun f hf => (hgone f hf).imp_right fun hmem => ?_
    obtain ⟨e, he, rfl⟩ := List.mem_map.mp hmem
    refine List.mem_map.mpr ⟨(e.1.key, e.2), hms.mem_iff.mpr ?_, rfl⟩
    exact List.mem_append_left _ (List.mem_map_of_mem he)

/-- How a value is written that is an object with fields: compactly, or with its members in any order
and among others. -/
def Written.Spells (v : Json) (fields : List Field) (w : Written) : Prop :=
  w.Is v ∨ ∃ ms, w = .obj ms ∧ HasFields fields ms

/-- A value that is in a draft once its key has been seen. -/
def taken (key : String) (seen : List String) (x : β) : Option β :=
  if key ∈ seen then some x else none

@[simp] theorem taken_cons (key other : String) (seen : List String) (x : β) :
    taken key (other :: seen) x = if key = other then some x else taken key seen x := by
  unfold taken
  by_cases heq : key = other
  · rw [if_pos heq, if_pos (heq ▸ List.mem_cons_self)]
  · simp only [List.mem_cons, heq, false_or, if_false]

theorem taken_of_not_mem {key : String} {seen : List String} (h : key ∉ seen) (x : β) :
    taken key seen x = none :=
  if_neg h

theorem need_taken {key : String} {seen : List String} (h : key ∈ seen) (x : β) :
    need key (taken key seen x) = .ok x := by
  rw [taken, if_pos h, need]

theorem taken_getD {key : String} {seen : List String} {x y : β} (h : x = y ∨ key ∈ seen) :
    (taken key seen x).getD y = x := by
  unfold taken
  split
  · rfl
  · next hnot => exact (h.resolve_right hnot).symm

/-! ## Shapes -/

/-- **A shape builds a value from these fields.** `state seen` is the draft in which the fields under
the keys in `seen` have been read, in whatever order. -/
structure Shape.Builds (shape : Shape F σ α) (owes : F σ → Written → σ → Prop) (fields : List Field)
    (state : List String → σ) (a : α) : Prop where
  blank : state [] = shape.blank
  keys : shape.slots.map Slot.key = fields.map Field.key
  step : ∀ f ∈ fields, ∀ seen, f.key ∉ seen → ∃ slot, shape.slot? f.key = some slot ∧
    slot.isFilled (state seen) = false ∧
    ∀ w, f.spelled w → owes (slot.read (state seen)) w (state (f.key :: seen))
  close : ∀ seen, (∀ f ∈ fields, f.mayLack ∨ f.key ∈ seen) → shape.close (state seen) = .ok a

variable {key : String} {isOptional : Bool} {get : σ → Option β} {put : σ → β → σ} {x : β}

theorem isSome_of_taken {draft : σ} {seen : List String} (hget : get draft = taken key seen x)
    (hfresh : key ∉ seen) : (get draft).isSome = false := by
  rw [hget, taken_of_not_mem hfresh]
  rfl

theorem Shape.slot?_eq_none {shape : Shape F σ α} {key : String}
    (h : key ∉ shape.slots.map Slot.key) : shape.slot? key = none := by
  unfold Shape.slot?
  rw [List.find?_eq_none]
  intro slot hslot heq
  exact h (List.mem_map.mpr ⟨slot, hslot, eq_of_beq heq⟩)

/-- Reading an object with the fields ends with a draft that can be closed. -/
theorem Shape.Builds.exists_chain {shape : Shape F σ α} {owes : F σ → Written → σ → Prop}
    {fields : List Field} {state : List String → σ} {a : α}
    {step : String × Written → σ → σ → Prop} {P : Written → Prop}
    (h : shape.Builds owes fields state a)
    (hslot : ∀ {key slot draft w next}, shape.slot? key = some slot → slot.isFilled draft = false →
      P w → owes (slot.read draft) w next → step (key, w) draft next)
    (hskip : ∀ {key draft f}, shape.slot? key = none → step (key, .foreign f) draft draft)
    {ms : List (String × Written)} (hms : HasFields fields ms) (hP : ∀ m ∈ ms, P m.2) :
    ∃ final, Chain step ms shape.blank final ∧ shape.close final = .ok a := by
  -- By induction on the members: the draft is that of the keys of all fields met so far.
  have hchain : ∀ (ms : List (String × Written)) (seen : List String),
      (∀ m ∈ ms, (∃ f ∈ fields, m.1 = f.key ∧ f.spelled m.2) ∨
        m.1 ∉ fields.map Field.key ∧ ∃ f, m.2 = .foreign f) →
      (ms.Pairwise fun m n => m.1 ∈ fields.map Field.key → m.1 ≠ n.1) →
      (∀ m ∈ ms, m.1 ∉ seen) → (∀ m ∈ ms, P m.2) →
      ∃ seen', Chain step ms (state seen) (state seen') ∧
        (∀ k ∈ seen, k ∈ seen') ∧ ∀ k ∈ fields.map Field.key, k ∈ ms.map Prod.fst → k ∈ seen' := by
    intro ms
    induction ms with
    | nil =>
      intro seen _ _ _ _
      exact ⟨seen, .nil _, fun _ hk => hk, fun _ _ hk => absurd hk List.not_mem_nil⟩
    | cons m ms ih =>
      intro seen heach honce hfresh hP
      obtain ⟨key, w⟩ := m
      obtain ⟨hm, hmoreeach⟩ := List.forall_mem_cons.mp heach
      obtain ⟨hmonce, hmoreonce⟩ := List.pairwise_cons.mp honce
      obtain ⟨hmfresh, hmorefresh⟩ := List.forall_mem_cons.mp hfresh
      obtain ⟨hmP, hmoreP⟩ := List.forall_mem_cons.mp hP
      rcases hm with ⟨f, hf, rfl, hspelled⟩ | ⟨hunknown, f, rfl⟩
      · obtain ⟨slot, hslot?, hfree, howes⟩ := h.step f hf seen hmfresh
        have hknown : f.key ∈ fields.map Field.key := List.mem_map_of_mem hf
        obtain ⟨seen', hmore, hkeep, hmet⟩ := ih (f.key :: seen) hmoreeach hmoreonce
          (fun n hn hmem => (List.mem_cons.mp hmem).elim
            (fun heq => hmonce n hn hknown heq.symm) (hmorefresh n hn)) hmoreP
        refine ⟨seen', .cons (hslot hslot? hfree hmP (howes w hspelled)) hmore,
          fun k hk => hkeep k (List.mem_cons_of_mem _ hk), fun k hk hmem => ?_⟩
        rcases List.mem_cons.mp hmem with rfl | hmem
        · exact hkeep _ List.mem_cons_self
        · exact hmet k hk hmem
      · obtain ⟨seen', hmore, hkeep, hmet⟩ := ih seen hmoreeach hmoreonce hmorefresh hmoreP
        refine ⟨seen', .cons (hskip (Shape.slot?_eq_none (h.keys ▸ hunknown))) hmore, hkeep,
          fun k hk hmem => ?_⟩
        rcases List.mem_cons.mp hmem with rfl | hmem
        · exact absurd hk hunknown
        · exact hmet k hk hmem
  obtain ⟨seen', hms', -, hmet⟩ :=
    hchain ms [] hms.each hms.once (fun _ _ => List.not_mem_nil) hP
  rw [h.blank] at hms'
  refine ⟨state seen', hms', h.close seen' fun f hf => ?_⟩
  exact (hms.present f hf).imp_right (hmet _ (List.mem_map_of_mem hf))

/-! ## Records in text -/

theorem takes_map {reader : Reader α} {w : Written} {x : α} (f : α → β) (h : Takes reader w x) :
    Takes (reader.map f) w (f x) := by
  intro budget rest hdepth hrest
  obtain ⟨rest', hrest', hread⟩ := h budget rest hdepth hrest
  exact ⟨rest', hrest', mapScan_eq_ok_iff.mpr ⟨x, hread, rfl⟩⟩

/-- **An object with the fields of a record is read as the record.** -/
theorem takes_record {shape : Shape Reader σ α} {fields : List Field} {state : List String → σ}
    {a : α} (h : shape.Builds Takes fields state a) {ms : List (String × Written)}
    (hms : HasFields fields ms) : Takes (record shape) (.obj ms) a := by
  intro budget rest hdepth _
  obtain ⟨b, rfl⟩ := exists_budget hdepth
  refine ⟨rest, rfl, ?_⟩
  have hslot : ∀ {key slot draft w next}, shape.slot? key = some slot →
      slot.isFilled draft = false → w.value.depth ≤ b → Takes (slot.read draft) w next →
      Collects (shape.member b) (key, w) draft next := by
    intro key slot draft w next hslot hfree hdepth htakes rest hrest
    obtain ⟨rest', hrest', hread⟩ := htakes b rest hdepth hrest
    refine ⟨rest', hrest', ?_⟩
    unfold Shape.member
    rw [string_escapedBefore]
    refine bind_eq_ok_iff.mpr ⟨_, rfl, ?_⟩
    dsimp only
    rw [hslot]
    dsimp only
    rw [hfree]
    exact hread
  have hskip : ∀ {key draft f}, shape.slot? key = none →
      Collects (shape.member b) (key, .foreign f) draft draft := by
    intro key draft f hnone rest hrest
    obtain ⟨rest', hrest', hskim⟩ := f.skim_before hrest
    refine ⟨rest', hrest', ?_⟩
    unfold Shape.member
    rw [string_escapedBefore]
    refine bind_eq_ok_iff.mpr ⟨_, rfl, ?_⟩
    dsimp only
    rw [hnone]
    show (skim (f.text.toList ++ rest) >>= _) = _
    rw [hskim]
    rfl
  obtain ⟨final, hchain, hclose⟩ := h.exists_chain hslot hskip hms (depth_le_of_members hdepth)
  show (members (shape.member b) shape.blank (Written.membersBefore ms ('\x7d' :: rest)) >>= _) = _
  rw [members_written hchain]
  refine bind_eq_ok_iff.mpr ⟨_, rfl, ?_⟩
  dsimp only
  rw [hclose]
  rfl

/-- A field of a record is read where it stands, when it is the first under its key. -/
theorem builds_field {shape : Shape Reader σ α} {reader : Reader β} {state : List String → σ}
    {spelled : Written → Prop} (hslot : shape.slot? key = some (field key isOptional get put reader))
    (hget : ∀ seen, get (state seen) = taken key seen x)
    (hput : ∀ seen, put (state seen) x = state (key :: seen))
    (hread : ∀ w, spelled w → Takes reader w x) (seen : List String) (hfresh : key ∉ seen) :
    ∃ slot, shape.slot? key = some slot ∧ slot.isFilled (state seen) = false ∧
      ∀ w, spelled w → Takes (slot.read (state seen)) w (state (key :: seen)) := by
  refine ⟨_, hslot, isSome_of_taken (hget seen) hfresh, fun w hw => ?_⟩
  rw [← hput]
  exact takes_map (put (state seen)) (hread w hw)

theorem takes_spells {shape : Shape Reader σ α} {fields : List Field} {state : List String → σ}
    {a : α} (h : shape.Builds Takes fields state a) {v : Json} (hplain : Reads (record shape) v a)
    {w : Written} (hw : w.Spells v fields) : Takes (record shape) w a := by
  rcases hw with hw | ⟨ms, rfl, hms⟩
  · exact takes_of_is hplain w hw
  · exact takes_record h hms

theorem ignoresSpace_record (shape : Shape Reader σ α) : IgnoresSpace (record shape) := by
  intro budget text
  unfold record
  rw [skipSpace_skipSpace]

/-! ## Records in documents -/

/-- What a decoder owes a written document whose depth is limited. -/
def Decodes (limit : Nat) (decoder : Decoder α) (w : Written) (x : α) : Prop :=
  w.value.depth ≤ limit → decoder w.value = .ok x

/-- **An object with the fields of a record is decoded as the record.** -/
theorem decodeRecord_of_fields {shape : Shape Decoder σ α} {limit : Nat} {fields : List Field}
    {state : List String → σ} {a : α} (h : shape.Builds (Decodes limit) fields state a)
    {ms : List (String × Written)} (hms : HasFields fields ms)
    (hdepth : ∀ m ∈ ms, m.2.value.depth ≤ limit) (leftOver : Nat → Nat → ReadError) :
    decodeRecord shape leftOver (Written.obj ms).value = .ok a := by
  let step (m : String × Written) (s t : σ) : Prop :=
    ∀ rest, shape.gather ((m.1, m.2.value) :: rest) s = shape.gather rest t
  have hslot : ∀ {key slot draft w next}, shape.slot? key = some slot →
      slot.isFilled draft = false → w.value.depth ≤ limit → Decodes limit (slot.read draft) w next →
      step (key, w) draft next := by
    intro key slot draft w next hslot hfree hdepth hdecodes rest
    rw [Shape.gather, hslot]
    dsimp only
    rw [hfree, hdecodes hdepth]
    rfl
  have hskip : ∀ {key draft f}, shape.slot? key = none → step (key, .foreign f) draft draft := by
    intro key draft f hnone rest
    rw [Shape.gather, hnone]
  have hgather : ∀ {ms : List (String × Written)} {s t : σ}, Chain step ms s t →
      shape.gather (Written.valueOfMembers ms) s = .ok t := by
    intro ms s t hchain
    induction hchain with
    | nil => rfl
    | cons hstep _ ih => exact (hstep _).trans ih
  obtain ⟨final, hchain, hclose⟩ := h.exists_chain hslot hskip hms hdepth
  exact decodeRecord_obj (hgather hchain) hclose

/-- A field of a record is decoded where it stands, when it is the first under its key. -/
theorem builds_part {shape : Shape Decoder σ α} {decoder : Decoder β} {limit : Nat}
    {state : List String → σ} {spelled : Written → Prop}
    (hslot : shape.slot? key = some (part key isOptional get put decoder))
    (hget : ∀ seen, get (state seen) = taken key seen x)
    (hput : ∀ seen, put (state seen) x = state (key :: seen))
    (hread : ∀ w, spelled w → Decodes limit decoder w x) (seen : List String)
    (hfresh : key ∉ seen) :
    ∃ slot, shape.slot? key = some slot ∧ slot.isFilled (state seen) = false ∧
      ∀ w, spelled w → Decodes limit (slot.read (state seen)) w (state (key :: seen)) := by
  refine ⟨_, hslot, isSome_of_taken (hget seen) hfresh, fun w hw hdepth => ?_⟩
  rw [← hput]
  exact read_part (hread w hw hdepth) (state seen)

theorem decodes_list {decoder : Decoder α} {limit : Nat} {ws : List Written} {xs : List α}
    (h : List.Forall₂ (Decodes limit decoder) ws xs) :
    Decodes limit (decodeList decoder) (.arr ws) xs := by
  have hitems : depthOfItems (Written.valueOfItems ws) ≤ limit →
      decodeEach decoder (Written.valueOfItems ws) = .ok xs := by
    induction h with
    | nil => exact fun _ => rfl
    | @cons w x ws xs hw _ ih =>
      intro hdepth
      obtain ⟨hwdepth, hmoredepth⟩ := Nat.max_le.mp hdepth
      rw [Written.valueOfItems, decodeEach, hw hwdepth, ih hmoredepth]
      rfl
  exact fun hdepth => hitems (Nat.le_of_succ_le hdepth)

/-! ## Tagged variants -/

/-- The tag of a tagged variant as a field. -/
def tagField (name : String) : Field :=
  .exactly tagKey (.str name)

@[simp] theorem key_tagField (name : String) : (tagField name).key = "kind" :=
  rfl

@[simp] theorem mayLack_tagField (name : String) : (tagField name).mayLack = False :=
  rfl

@[simp] theorem spelled_tagField (name : String) :
    (tagField name).spelled = fun w => w.Is (.str name) :=
  rfl

/-- The tag stands somewhere among the members, and the others are the fields of the variant. -/
theorem HasFields.exists_untagged {name : String} {fields : List Field}
    {ms : List (String × Written)} (h : HasFields (tagField name :: fields) ms)
    (hkeys : tagKey ∉ fields.map Field.key) :
    ∃ before integral after, ms = before ++ (tagKey, .plain (.str name) integral) :: after ∧
      (∀ m ∈ before ++ after, m.1 ≠ tagKey) ∧ HasFields fields (before ++ after) := by
  have htagKey : tagKey ∈ (tagField name :: fields).map Field.key := List.mem_cons_self
  have hpresent : tagKey ∈ ms.map Prod.fst :=
    (h.present (tagField name) List.mem_cons_self).resolve_left id
  obtain ⟨⟨key, tag⟩, hmem, hkey⟩ := List.mem_map.mp hpresent
  obtain rfl : key = tagKey := hkey
  obtain ⟨before, after, rfl⟩ := List.append_of_mem hmem
  have honce := List.pairwise_append.mp h.once
  obtain ⟨htagonce, hafter⟩ := List.pairwise_cons.mp honce.2.1
  -- The tag is a field, so no other member stands under its key.
  have hne : ∀ m ∈ before ++ after, m.1 ≠ tagKey := by
    intro m hm heq
    rcases List.mem_append.mp hm with hm | hm
    · exact honce.2.2 m hm (tagKey, tag) List.mem_cons_self (heq ▸ htagKey) heq
    · exact htagonce m hm htagKey heq.symm
  have htag : tag.Is (.str name) := by
    rcases h.each (tagKey, tag) hmem with ⟨f, hf, hfkey, hspelled⟩ | ⟨hunknown, -⟩
    · rcases List.mem_cons.mp hf with rfl | hf
      · exact hspelled
      · exact absurd (List.mem_map.mpr ⟨f, hf, hfkey.symm⟩) hkeys
    · exact absurd htagKey hunknown
  obtain ⟨integral, rfl⟩ := htag
  have hsub : (before ++ after).Sublist (before ++ (tagKey, .plain (.str name) integral) :: after) :=
    (List.Sublist.refl before).append (List.sublist_cons_self _ after)
  refine ⟨before, integral, after, rfl, hne, ?_, ?_, ?_⟩
  · intro m hm
    rcases h.each m (hsub.subset hm) with ⟨f, hf, hfkey, hspelled⟩ | ⟨hunknown, hforeign⟩
    · rcases List.mem_cons.mp hf with rfl | hf
      · exact absurd hfkey (hne m hm)
      · exact Or.inl ⟨f, hf, hfkey, hspelled⟩
    · exact Or.inr ⟨fun hknown => hunknown (List.mem_cons_of_mem _ hknown), hforeign⟩
  · exact (h.once.sublist hsub).imp fun hne hknown => hne (List.mem_cons_of_mem _ hknown)
  · intro f hf
    refine (h.present f (List.mem_cons_of_mem _ hf)).imp_right fun hmem => ?_
    have hfne : f.key ≠ tagKey := fun heq => hkeys (heq ▸ List.mem_map_of_mem hf)
    simp only [List.map_append, List.map_cons, List.mem_append, List.mem_cons, hfne, false_or]
      at hmem ⊢
    exact hmem

theorem collects_gathered {known : List (String × τ)} {budget : Nat} {t : Option τ} :
    ∀ {ms : List (String × Written)} (before : List (String × Json)),
      (∀ m ∈ ms, m.1 ≠ tagKey) → (∀ m ∈ ms, m.2.value.depth ≤ budget) →
      Chain (Collects (taggedMember known budget)) ms (t, before)
        (t, (Written.valueOfMembers ms).reverse ++ before)
  | [], before, _, _ => .nil (t, before)
  | (key, w) :: ms, before, hkeys, hdepths => by
    obtain ⟨hkey, hmorekeys⟩ := List.forall_mem_cons.mp hkeys
    obtain ⟨hdepth, hmoredepths⟩ := List.forall_mem_cons.mp hdepths
    rw [Written.valueOfMembers, List.reverse_cons, List.append_assoc]
    refine .cons (fun rest hrest => ?_)
      (collects_gathered ((key, w.value) :: before) hmorekeys hmoredepths)
    obtain ⟨rest', hrest', hread⟩ := takes_tree w budget rest hdepth hrest
    refine ⟨rest', hrest', ?_⟩
    unfold taggedMember
    rw [string_escapedBefore]
    refine bind_eq_ok_iff.mpr ⟨_, rfl, ?_⟩
    show (if key = tagKey then _ else _) = _
    rw [if_neg hkey]
    show (tree budget (w.before rest) >>= _) = _
    rw [hread]
    rfl

variable {known : List (String × τ)} {name : String} {t : τ}
  {before after : List (String × Written)}

/-- **A tagged variant is read with its tag anywhere**: the others are gathered as they stand. -/
theorem takes_tagged (hname : lookupEntry name known = some t)
    (hfields : ∀ m ∈ before ++ after, m.1 ≠ tagKey) (integral : Integral (.str name))
    (typeName : String) :
    Takes (tagged typeName known) (.obj (before ++ (tagKey, .plain (.str name) integral) :: after))
      (t, (Written.obj (before ++ after)).value) := by
  intro budget rest hdepth _
  obtain ⟨b, rfl⟩ := exists_budget hdepth
  refine ⟨rest, rfl, ?_⟩
  obtain ⟨hbefore, hafter⟩ := List.forall_mem_append.mp hfields
  obtain ⟨hbeforedepth, hmoredepth⟩ := List.forall_mem_append.mp (depth_le_of_members hdepth)
  have hafterdepth := fun m hm => hmoredepth m (List.mem_cons_of_mem _ hm)
  -- Fields are gathered in reverse, on either side of the tag.
  have hchain : Chain (Collects (taggedMember known b))
      (before ++ (tagKey, .plain (.str name) integral) :: after) (none, [])
      (some t, (Written.valueOfMembers after).reverse
        ++ ((Written.valueOfMembers before).reverse ++ [])) :=
    (collects_gathered [] hbefore hbeforedepth).append
      (.cons (fun rest _ => ⟨rest, rfl, taggedMember_tag hname b _ rest⟩)
        (collects_gathered _ hafter hafterdepth))
  show (members (taggedMember known b) (none, []) (Written.membersBefore _ ('\x7d' :: rest))
    >>= _) = _
  rw [members_written hchain]
  refine bind_eq_ok_iff.mpr ⟨_, rfl, ?_⟩
  show Except.ok ((t, obj _), rest) = _
  simp only [Written.value, Written.valueOfMembers_eq_map, List.append_nil, List.reverse_append,
    List.reverse_reverse, List.map_append]

/-- **A tagged variant is decoded with its tag anywhere.** -/
theorem decodeTagged_written (hname : lookupEntry name known = some t)
    (hfields : ∀ m ∈ before ++ after, m.1 ≠ tagKey) (integral : Integral (.str name))
    (typeName : String) :
    decodeTagged typeName known
        (Written.obj (before ++ (tagKey, .plain (.str name) integral) :: after)).value
      = .ok (t, (Written.obj (before ++ after)).value) := by
  have hkeys : ∀ {ms : List (String × Written)}, (∀ m ∈ ms, m.1 ≠ tagKey) →
      ∀ m ∈ ms.map (fun m => (m.1, m.2.value)), m.1 ≠ tagKey := by
    intro ms h m hm
    obtain ⟨m', hm', rfl⟩ := List.mem_map.mp hm
    exact h m' hm'
  obtain ⟨hbefore, hafter⟩ := List.forall_mem_append.mp hfields
  have htag : decodeTag known (.str name) = .ok t := pick_eq_ok_iff.mpr hname
  simp only [Written.value, Written.valueOfMembers_eq_map, List.map_append, List.map_cons]
  rw [decodeTagged, separate_append (hkeys hbefore), separate, if_pos rfl]
  show (decodeTag known (.str name) >>= _) = _
  rw [htag]
  refine (separate_fields _ (hkeys hafter)).trans ?_
  rw [List.append_nil, List.reverse_reverse]

/-- **The fields of a tagged variant.** What reading or decoding the variant leaves is an object with
the fields of the variant its tag names. -/
theorem HasFields.exists_fields {fields : List Field} {ms : List (String × Written)}
    (h : HasFields (tagField name :: fields) ms) (hkeys : tagKey ∉ fields.map Field.key)
    (hname : lookupEntry name known = some t) (typeName : String) :
    ∃ ms', HasFields fields ms' ∧ (∀ m ∈ ms', m ∈ ms) ∧
      Takes (tagged typeName known) (.obj ms) (t, (Written.obj ms').value) ∧
      decodeTagged typeName known (Written.obj ms).value
        = .ok (t, (Written.obj ms').value) := by
  obtain ⟨before, integral, after, rfl, hfields, hhas⟩ := h.exists_untagged hkeys
  refine ⟨before ++ after, hhas, fun m hm => ?_, takes_tagged hname hfields integral typeName,
    decodeTagged_written hname hfields integral typeName⟩
  exact (List.mem_append.mp hm).elim (List.mem_append_left _)
    fun hm => List.mem_append_right _ (List.mem_cons_of_mem _ hm)

end OperatorModes.Json
