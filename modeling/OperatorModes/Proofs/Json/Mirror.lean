import OperatorModes.Proofs.Json.Lookup
import OperatorModes.Proofs.Json.Written

/-!
# Reading and decoding come to the same

A value is read straight from its text, or its text is read as a document first and the document
decoded. The two ways meet the same things in the same order, so where both follow one description
they come to the same value or both to none (`Mirrors`); only their complaints may differ. Strings,
values and what may be `null` are settled by the first character of the text. A record is read along
the run that its members make as a document: each member is read as a field or passed over, and ends
where it ends as part of the document.

> `mirrors_record`: a record mirrors one whose fields mirror its own.
> `readAll_eq_ok_iff_of_mirrors`: then a whole text is read as what its document is decoded as.
-/

namespace OperatorModes.Json

variable {α β σ : Type}

/-- **A reader mirrors a decoder at a value.** Wherever the value stands as a document, reading
comes to what decoding comes to, and ends where the document ends. -/
def Mirrors (reader : Reader α) (decoder : Decoder α) (v : Json) : Prop :=
  ∀ {budget : Nat} {text rest : List Char}, tree budget text = .ok (v, rest) →
    ∀ {a : α} {rest' : List Char},
      reader budget text = .ok (a, rest') ↔ decoder v = .ok a ∧ rest' = rest

theorem readAll_eq_ok_iff_of_mirrors {reader : Reader α} {decoder : Decoder α} {v : Json}
    (h : Mirrors reader decoder v) {document : String} (hread : readAll tree document = .ok v)
    {a : α} : readAll reader document = .ok a ↔ decoder v = .ok a := by
  obtain ⟨rest, htree, hblank⟩ := readAll_eq_ok_iff.mp hread
  rw [readAll_eq_ok_iff]
  simp only [h htree]
  constructor
  · rintro ⟨_, ⟨ha, rfl⟩, -⟩
    exact ha
  · intro ha
    exact ⟨rest, ⟨ha, rfl⟩, hblank⟩

/-! ## Simple values -/

/-- Decodes any value, forgetting the order and repetition of its members. -/
def decodeValue : Decoder Json := fun v =>
  .ok v.canonical

/-- Decodes `null` as nothing and anything else as a value. -/
def decodeNullable (decoder : Decoder α) : Decoder (Option α)
  | null => .ok none
  | v => do
    let a ← decoder v
    .ok (some a)

theorem fieldIs_value_iff {ms : List (String × Json)} {key : String} {x : Option Json} :
    FieldIs ms key decodeValue x ↔ x = (find? ms key).map canonical := by
  unfold FieldIs decodeValue
  cases find? ms key with
  | none => rfl
  | some v => simp

theorem decodeNullable_eq_ok_iff {decoder : Decoder α} {v : Json} {x : Option α} :
    decodeNullable decoder v = .ok x ↔
      v = .null ∧ x = none ∨ v ≠ .null ∧ ∃ a, decoder v = .ok a ∧ x = some a := by
  cases v with
  | null => simp [decodeNullable, eq_comm]
  | _ =>
    refine bind_eq_ok_iff.trans ?_
    simp [eq_comm]

theorem mirrors_value (v : Json) : Mirrors value decodeValue v := by
  intro budget text rest htree a rest'
  rw [value, Reader.map, mapScan_eq_ok_iff, htree, decodeValue]
  constructor
  · rintro ⟨_, hv, rfl⟩
    cases hv
    exact ⟨rfl, rfl⟩
  · rintro ⟨ha, rfl⟩
    cases ha
    exact ⟨v, rfl, rfl⟩

theorem tree_of_quote {text inner : List Char} (hskip : skipSpace text = '"' :: inner)
    (budget : Nat) : tree budget text = mapScan str (string inner) := by
  rw [tree.eq_def]
  simp only [hskip]
  rfl

theorem tree_of_n {text inner : List Char} (hskip : skipSpace text = 'n' :: inner) (budget : Nat) :
    tree budget text = word? ['u', 'l', 'l'] inner >>= fun rest => .ok (null, rest) := by
  rw [tree.eq_def]
  simp only [hskip]
  rfl

/-- Only a quote starts a string, and only the letter of its name `null`. -/
theorem first_of_tree {budget : Nat} {text rest : List Char} {v : Json}
    (h : tree budget text = .ok (v, rest)) :
    (∀ s, v = .str s → ∃ inner, skipSpace text = '"' :: inner) ∧
      (v = .null → ∃ inner, skipSpace text = 'n' :: inner) := by
  cases tree_eq_ok_iff.mp h with
  | arr => simp
  | obj => simp
  | scalar hscalar =>
    unfold scalar at hscalar
    split at hscalar
    · cases hscalar
    · next c inner hskip =>
      repeat' split at hscalar
      all_goals first
        | cases hscalar
        | (obtain ⟨_, -, hscalar⟩ := bind_eq_ok_iff.mp hscalar; cases hscalar; simp_all)
        | (obtain ⟨_, -, hscalar⟩ := mapScan_eq_ok_iff.mp hscalar; cases hscalar; simp_all)

theorem mirrors_text (v : Json) : Mirrors text decodeText v := by
  intro budget txt rest htree a rest'
  by_cases hquote : ∃ inner, skipSpace txt = '"' :: inner
  · obtain ⟨inner, hskip⟩ := hquote
    rw [tree_of_quote hskip] at htree
    obtain ⟨s, hs, rfl⟩ := mapScan_eq_ok_iff.mp htree
    have htext : text budget txt = .ok (s, rest) := by
      rw [text, hskip]
      exact hs
    rw [htext, decodeText, Except.ok.injEq, Except.ok.injEq, Prod.mk.injEq]
    exact and_congr_right fun _ => eq_comm
  · have hno : ∀ s, v ≠ .str s := fun s hv => hquote ((first_of_tree htree).1 s hv)
    refine iff_of_false (fun h => ?_) fun h => ?_
    · unfold text at h
      split at h
      · next inner hskip => exact hquote ⟨inner, hskip⟩
      · cases h
    · cases v with
      | str s => exact hno s rfl
      | _ => cases h.1

theorem mirrors_nullable {reader : Reader α} {decoder : Decoder α} {v : Json}
    (h : v ≠ .null → Mirrors reader decoder v) :
    Mirrors (nullable reader) (decodeNullable decoder) v := by
  intro budget text rest htree a rest'
  by_cases hn : ∃ inner, skipSpace text = 'n' :: inner
  · obtain ⟨inner, hskip⟩ := hn
    rw [tree_of_n hskip] at htree
    obtain ⟨after, hword, hv⟩ := bind_eq_ok_iff.mp htree
    cases hv
    have hnull : nullable reader budget text = .ok (none, rest) := by
      rw [nullable, hskip]
      show (word? ['u', 'l', 'l'] inner >>= _) = _
      rw [hword]
      rfl
    rw [hnull, decodeNullable, Except.ok.injEq, Except.ok.injEq, Prod.mk.injEq]
    exact and_congr_right fun _ => eq_comm
  · have hnot : v ≠ .null := fun hv => hn ((first_of_tree htree).2 hv)
    have hread : nullable reader budget text = reader.map some budget (skipSpace text) := by
      unfold nullable
      split
      · next inner hskip => exact absurd ⟨inner, hskip⟩ hn
      · rfl
    rw [← ignoresSpace_tree] at htree
    rw [hread, Reader.map, mapScan_eq_ok_iff, decodeNullable_eq_ok_iff]
    simp only [h hnot htree]
    constructor
    · rintro ⟨x, ⟨hx, hrest⟩, rfl⟩
      exact ⟨Or.inr ⟨hnot, x, hx, rfl⟩, hrest⟩
    · rintro ⟨⟨hnull, -⟩ | ⟨-, x, hx, rfl⟩, hrest⟩
      · exact absurd hnull hnot
      · exact ⟨x, ⟨hx, hrest⟩, rfl⟩

/-! ## Records -/

/-- **A description of a record mirrors another** as far as some members go: the drafts are the
same, and each field mirrors the one in its place at the values that stand under its key. -/
structure Shape.Mirrors (shape : Shape Reader σ α) (twin : Shape Decoder σ α)
    (ms : List (String × Json)) : Prop where
  blank : shape.blank = twin.blank
  close : shape.close = twin.close
  slots : List.Forall₂ (fun slot slot' => slot.key = slot'.key ∧ slot.isFilled = slot'.isFilled ∧
    ∀ v, (slot.key, v) ∈ ms → ∀ draft, Json.Mirrors (slot.read draft) (slot'.read draft) v)
    shape.slots twin.slots

theorem mirrors_field {key : String} {isOptional isOptional' : Bool} {get : σ → Option β}
    {put : σ → β → σ} {reader : Reader β} {decoder : Decoder β} {v : Json}
    (h : Mirrors reader decoder v) (draft : σ) :
    Mirrors ((field key isOptional get put reader).read draft)
      ((part key isOptional' get put decoder).read draft) v := by
  intro budget text rest htree next rest'
  rw [read_field_eq_ok_iff, read_part_eq_ok_iff]
  simp only [h htree]
  constructor
  · rintro ⟨x, ⟨hx, hrest⟩, hnext⟩
    exact ⟨⟨x, hx, hnext⟩, hrest⟩
  · rintro ⟨⟨x, hx, hnext⟩, hrest⟩
    exact ⟨x, ⟨hx, hrest⟩, hnext⟩

theorem Shape.gather_cons_eq_ok_iff {shape : Shape Decoder σ α} {m : String × Json}
    {ms : List (String × Json)} {draft last : σ} :
    shape.gather (m :: ms) draft = .ok last ↔
      ∃ next, shape.gather [m] draft = .ok next ∧ shape.gather ms next = .ok last := by
  obtain ⟨key, v⟩ := m
  rw [Shape.gather, Shape.gather]
  cases shape.slot? key with
  | none => simp [Shape.gather]
  | some slot =>
    dsimp only
    split
    · simp
    · simp only [bind_eq_ok_iff, Shape.gather, Except.ok.injEq, exists_eq_right]

namespace Shape.Mirrors

variable {shape : Shape Reader σ α} {twin : Shape Decoder σ α} {ms : List (String × Json)}

/-- Where one has no field under a key, neither has the other. -/
theorem slot?_cases (h : shape.Mirrors twin ms) (key : String) :
    (shape.slot? key = none ∧ twin.slot? key = none) ∨
    ∃ slot slot', shape.slot? key = some slot ∧ twin.slot? key = some slot' ∧
      slot.isFilled = slot'.isFilled ∧
      ∀ v, (key, v) ∈ ms → ∀ draft, Json.Mirrors (slot.read draft) (slot'.read draft) v := by
  unfold Shape.slot?
  have hslots := h.slots
  generalize shape.slots = slots at hslots ⊢
  generalize twin.slots = slots' at hslots ⊢
  induction hslots with
  | nil => exact Or.inl ⟨rfl, rfl⟩
  | @cons slot slot' slots slots' hslot _ ih =>
    obtain ⟨hkey, hfilled, hread⟩ := hslot
    rw [List.find?_cons, List.find?_cons, ← hkey]
    by_cases heq : slot.key = key
    · subst heq
      rw [beq_self_eq_true]
      exact Or.inr ⟨slot, slot', rfl, rfl, hfilled, hread⟩
    · rw [beq_eq_false_iff_ne.mpr heq]
      exact ih

/-- A member that stands in a document is read into a draft as it is decoded into it. -/
theorem member_iff (h : shape.Mirrors twin ms) {budget : Nat} {key : String} {v : Json}
    {start behind inner after : List Char} (hmem : (key, v) ∈ ms)
    (hstring : string start = .ok (key, behind)) (hcolon : colon behind = .ok inner)
    (htree : tree budget inner = .ok (v, after)) {draft next : σ} {after' : List Char} :
    shape.member budget draft start = .ok (next, after') ↔
      twin.gather [(key, v)] draft = .ok next ∧ after' = after := by
  unfold Shape.member
  rw [hstring]
  dsimp only [bind, Except.bind]
  rw [Shape.gather]
  rcases h.slot?_cases key with ⟨hslot, hslot'⟩ | ⟨slot, slot', hslot, hslot', hfilled, hread⟩
  · rw [hslot, hslot']
    show (colon behind >>= _) = _ ↔ _
    rw [hcolon]
    show (skim inner >>= _) = _ ↔ _
    rw [skim_of_tree htree]
    show Except.ok (draft, after) = _ ↔ Except.ok draft = _ ∧ _
    rw [Except.ok.injEq, Except.ok.injEq, Prod.mk.injEq]
    exact and_congr_right fun _ => eq_comm
  · rw [hslot, hslot']
    show (if slot.isFilled draft then _ else (colon behind >>= _)) = _ ↔
      (if slot'.isFilled draft then _ else _) = _ ∧ _
    rw [hfilled, hcolon]
    split
    · simp
    · simp only [Shape.gather, bind_eq_ok_iff, Except.ok.injEq, exists_eq_right, exists_eq_left']
      exact hread v hmem draft htree

/-- Along a run of members of a document, the members are read as they are decoded. -/
theorem run_iff (h : shape.Mirrors twin ms) {budget n : Nat} {isFirst : Bool}
    {before gathered : List (String × Json)} {text rest : List Char}
    (hrun : MembersRun (treeMember budget) n isFirst before text gathered rest) :
    ∃ new, gathered = new.reverse ++ before ∧ (new ⊆ ms → ∀ {k draft last rest'},
      MembersRun (shape.member budget) k isFirst draft text last rest' ↔
        k = n ∧ twin.gather new draft = .ok last ∧ rest' = rest) := by
  induction hrun with
  | @close isFirst before text rest hend =>
    refine ⟨[], rfl, fun _ k draft last rest' => ?_⟩
    constructor
    · intro hrun
      cases hrun with
      | close hend' =>
        rw [hend] at hend'
        cases hend'
        exact ⟨rfl, rfl, rfl⟩
      | next hnext =>
        rw [nextMember_eq_none_iff.mpr ⟨rest, hend⟩] at hnext
        cases hnext
    · rintro ⟨rfl, hlast, rfl⟩
      cases hlast
      exact .close hend
  | @next n isFirst before _ _ text start after rest hnext hmember _ ih =>
    obtain ⟨key, v, behind, inner, hstring, hcolon, htree, rfl⟩ := treeMember_eq_ok_iff.mp hmember
    obtain ⟨new, rfl, hiff⟩ := ih
    refine ⟨(key, v) :: new, by simp, fun hsub k draft last rest' => ?_⟩
    obtain ⟨hmem, hmore⟩ := List.cons_subset.mp hsub
    rw [Shape.gather_cons_eq_ok_iff]
    constructor
    · intro hrun
      cases hrun with
      | close hend =>
        rw [nextMember_eq_none_iff.mpr ⟨_, hend⟩] at hnext
        cases hnext
      | next hnext' hmember' hmore' =>
        rw [hnext] at hnext'
        cases hnext'
        obtain ⟨hfirst, rfl⟩ := (h.member_iff hmem hstring hcolon htree).mp hmember'
        obtain ⟨rfl, hlast, hrest⟩ := (hiff hmore).mp hmore'
        exact ⟨rfl, ⟨_, hfirst, hlast⟩, hrest⟩
    · rintro ⟨rfl, ⟨next, hfirst, hlast⟩, hrest⟩
      exact .next hnext ((h.member_iff hmem hstring hcolon htree).mpr ⟨hfirst, rfl⟩)
        ((hiff hmore).mpr ⟨rfl, hlast, hrest⟩)

end Shape.Mirrors

/-- **A record mirrors one whose fields mirror its own**, at an object. -/
theorem mirrors_record {shape : Shape Reader σ α} {twin : Shape Decoder σ α}
    {ms : List (String × Json)} (h : shape.Mirrors twin ms) (leftOver : Nat → Nat → ReadError) :
    Mirrors (record shape) (decodeRecord twin leftOver) (.obj ms) := by
  intro budget text rest htree a rest'
  cases tree_eq_ok_iff.mp htree with
  | scalar hscalar => cases depth_of_scalar hscalar
  | @obj budget n _ inner _ reversed hopen hlength hrun =>
    obtain ⟨new, hnew, hiff⟩ := h.run_iff hrun
    rw [List.append_nil] at hnew
    subst hnew
    rw [List.reverse_reverse] at h hiff ⊢
    have hmembers : ∀ {draft rest'}, members (shape.member budget) shape.blank inner
        = .ok (draft, rest') ↔ twin.gather new twin.blank = .ok draft ∧ rest' = rest := by
      intro draft rest'
      rw [members_eq_ok_iff, h.blank]
      simp only [hiff (List.Subset.refl _)]
      constructor
      · rintro ⟨_, -, -, hdraft, hrest⟩
        exact ⟨hdraft, hrest⟩
      · rintro ⟨hdraft, hrest⟩
        exact ⟨n, hlength, rfl, hdraft, hrest⟩
    rw [record, hopen]
    show (members _ _ inner >>= _) = _ ↔ _
    rw [decodeRecord, bind_eq_ok_iff, bind_eq_ok_iff, h.close]
    simp only [Prod.exists, hmembers, bind_eq_ok_iff, Except.ok.injEq, Prod.mk.injEq]
    constructor
    · rintro ⟨draft, _, ⟨hdraft, rfl⟩, x, hx, rfl, rfl⟩
      exact ⟨⟨draft, hdraft, hx⟩, rfl⟩
    · rintro ⟨⟨draft, hdraft, hx⟩, rfl⟩
      exact ⟨draft, rest', ⟨hdraft, rfl⟩, a, hx, rfl, rfl⟩

end OperatorModes.Json
