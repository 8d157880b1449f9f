import OperatorModes.Proofs.Json.Record
import OperatorModes.Proofs.Json.Skim

/-!
# Documents as they are written

The text of a document has more to it than the document: which members an object has besides those
that are asked for, in what order they stand, and how the values are spelled that nobody asks for. A
`Written` document is put together of parts that are spelled compactly and of foreign ones, which may
be any text that is a document. What a reader owes it is as for compact documents, but for white space
behind a foreign part, which is left to whatever is read next (`Takes`). Arrays are read item by item
and objects member by member (`items_written`, `members_written`), and as a document of its own every
written document is read as its value:

> `takes_tree`: `Takes tree w w.value`
-/

namespace OperatorModes.Json

variable {α β σ : Type}

/-! ## Written documents -/

/-- A text that is a document, with the document that it is. -/
structure Foreign where
  text : String
  content : Json
  reads : readAll tree text = .ok content

/-- Every text that holds a value is one, and the value is the document in canonical form. -/
theorem Foreign.exists_of_value {text : String} {v : Json} (h : readAll value text = .ok v) :
    ∃ f : Foreign, f.text = text ∧ f.content.canonical = v := by
  obtain ⟨rest, hvalue, hrest⟩ := readAll_eq_ok_iff.mp h
  obtain ⟨content, htree, rfl⟩ := mapScan_eq_ok_iff.mp hvalue
  exact ⟨⟨text, content, readAll_eq_ok_iff.mpr ⟨rest, htree, hrest⟩⟩, rfl, rfl⟩

/-- A document as it is written: spelled compactly, or foreign, or an array or object of such. -/
inductive Written where
  | plain (v : Json) (integral : Integral v)
  | foreign (f : Foreign)
  | arr (items : List Written)
  | obj (members : List (String × Written))

namespace Written

mutual

/-- The document that it is. -/
def value : Written → Json
  | plain v _ => v
  | foreign f => f.content
  | arr items => .arr (valueOfItems items)
  | obj members => .obj (valueOfMembers members)

/-- The document that each of a list is. -/
def valueOfItems : List Written → List Json
  | [] => []
  | w :: rest => w.value :: valueOfItems rest

/-- The members with the documents that their values are. -/
def valueOfMembers : List (String × Written) → List (String × Json)
  | [] => []
  | (k, w) :: rest => (k, w.value) :: valueOfMembers rest

end

mutual

/-- How it is spelled, in front of a text. -/
def before : Written → List Char → List Char
  | plain v _, text => v.before text
  | foreign f, text => f.text.toList ++ text
  | arr items, text => '[' :: itemsBefore items (']' :: text)
  | obj members, text => '\x7b' :: membersBefore members ('\x7d' :: text)

/-- Items with a comma between each two, in front of a text. -/
def itemsBefore : List Written → List Char → List Char
  | [], text => text
  | w :: rest, text => w.before (moreItemsBefore rest text)

/-- A comma in front of each of the remaining items. -/
def moreItemsBefore : List Written → List Char → List Char
  | [], text => text
  | w :: rest, text => ',' :: w.before (moreItemsBefore rest text)

/-- Members with a comma between each two, in front of a text. -/
def membersBefore : List (String × Written) → List Char → List Char
  | [], text => text
  | (k, w) :: rest, text => stringBefore k (':' :: w.before (moreMembersBefore rest text))

/-- A comma in front of each of the remaining members. -/
def moreMembersBefore : List (String × Written) → List Char → List Char
  | [], text => text
  | (k, w) :: rest, text => ',' :: stringBefore k (':' :: w.before (moreMembersBefore rest text))

end

/-- The text that is written. -/
def text (w : Written) : String :=
  String.ofList (w.before [])

/-- It is this document, spelled compactly. -/
def Is (w : Written) (v : Json) : Prop :=
  ∃ h, w = plain v h

@[simp] theorem is_plain {v u : Json} {integral : Integral v} : (plain v integral).Is u ↔ v = u := by
  constructor
  · rintro ⟨_, heq⟩
    exact plain.inj heq
  · rintro rfl
    exact ⟨integral, rfl⟩

theorem valueOfMembers_eq_map (ms : List (String × Written)) :
    valueOfMembers ms = ms.map fun m => (m.1, m.2.value) := by
  induction ms with
  | nil => rfl
  | cons m ms ih => rw [valueOfMembers, ih, List.map_cons]

/-! ## How a written document stands in its text -/

mutual

theorem length_before : ∀ (w : Written) (text : List Char), text.length ≤ (w.before text).length
  | plain v _, text => by
    rw [before, before_eq, List.length_append]
    omega
  | foreign f, text => by
    rw [before, List.length_append]
    omega
  | arr items, text => by
    have hitems := length_itemsBefore items (']' :: text)
    rw [List.length_cons] at hitems
    rw [before, List.length_cons]
    omega
  | obj members, text => by
    have hmembers := length_membersBefore members ('\x7d' :: text)
    rw [List.length_cons] at hmembers
    rw [before, List.length_cons]
    omega

theorem length_itemsBefore :
    ∀ (ws : List Written) (text : List Char), text.length ≤ (itemsBefore ws text).length
  | [], _ => Nat.le_refl _
  | w :: ws, text =>
    Nat.le_trans (Nat.le_trans (Nat.le_add_left _ _) (length_moreItemsBefore ws text))
      (length_before w _)

/-- The commas alone are as many as the items. -/
theorem length_moreItemsBefore :
    ∀ (ws : List Written) (text : List Char),
      ws.length + text.length ≤ (moreItemsBefore ws text).length
  | [], text => by simp [moreItemsBefore]
  | w :: ws, text => by
    have hmore := length_moreItemsBefore ws text
    have hw := length_before w (moreItemsBefore ws text)
    rw [moreItemsBefore, List.length_cons, List.length_cons]
    omega

theorem length_membersBefore :
    ∀ (ms : List (String × Written)) (text : List Char),
      text.length ≤ (membersBefore ms text).length
  | [], _ => Nat.le_refl _
  | (k, w) :: ms, text => by
    have hmore := length_moreMembersBefore ms text
    have hw := length_before w (moreMembersBefore ms text)
    rw [membersBefore]
    simp only [stringBefore, List.length_cons, List.length_append]
    omega

theorem length_moreMembersBefore :
    ∀ (ms : List (String × Written)) (text : List Char),
      ms.length + text.length ≤ (moreMembersBefore ms text).length
  | [], text => by simp [moreMembersBefore]
  | (k, w) :: ms, text => by
    have hmore := length_moreMembersBefore ms text
    have hw := length_before w (moreMembersBefore ms text)
    rw [moreMembersBefore]
    simp only [stringBefore, List.length_cons, List.length_append]
    omega

end

end Written

/-- What can be read starts, behind white space, as a value does. -/
theorem opens_of_tree {budget : Nat} {text rest : List Char} {v : Json}
    (h : tree budget text = .ok (v, rest)) : ∃ c tail, skipSpace text = c :: tail ∧ Opens c := by
  cases tree_eq_ok_iff.mp h with
  | arr hopen _ _ => exact ⟨_, _, hopen, by decide⟩
  | obj hopen _ _ => exact ⟨_, _, hopen, by decide⟩
  | scalar hscalar =>
    unfold scalar at hscalar
    cases hskip : skipSpace text with
    | nil =>
      rw [hskip] at hscalar
      cases hscalar
    | cons c tail =>
      refine ⟨c, tail, rfl, ?_⟩
      rw [hskip] at hscalar
      dsimp only at hscalar
      repeat' split at hscalar
      · next hn => rw [hn]; decide
      · next ht => rw [ht]; decide
      · next hf => rw [hf]; decide
      · next hquote => rw [hquote]; decide
      · next hdigit => exact opens_of_number hdigit
      · cases hscalar

/-! ## Reading what is written -/

/-- **What a reader owes a document as it is written**: if the document is not too deep, the reader
takes its spelling from any text and returns the value. White space behind the document may be left. -/
def Takes (reader : Reader α) (w : Written) (x : α) : Prop :=
  ∀ budget rest, w.value.depth ≤ budget → Stops rest →
    ∃ rest', skipSpace rest' = skipSpace rest ∧ reader budget (w.before rest) = .ok (x, rest')

theorem takes_plain {reader : Reader α} {v : Json} {x : α} (h : Reads reader v x)
    (integral : Integral v) : Takes reader (.plain v integral) x := by
  intro budget rest hdepth hrest
  exact ⟨rest, rfl, (h budget rest hrest).trans (if_pos hdepth)⟩

theorem takes_of_is {reader : Reader α} {v : Json} {x : α} (h : Reads reader v x) (w : Written)
    (hw : w.Is v) : Takes reader w x := by
  obtain ⟨integral, rfl⟩ := hw
  exact takes_plain h integral

/-- A whole text is read as what is written. -/
theorem readAll_text {reader : Reader α} {w : Written} {x : α} (h : Takes reader w x)
    (hdepth : w.value.depth ≤ depthLimit) : readAll reader w.text = .ok x := by
  obtain ⟨rest, hrest, hread⟩ := h depthLimit [] hdepth trivial
  refine readAll_eq_ok_iff.mpr ⟨rest, ?_, hrest⟩
  rw [Written.text, String.toList_ofList]
  exact hread

/-- A foreign text is read in any text as what it is by itself. -/
theorem Foreign.tree_before (f : Foreign) {budget : Nat} {rest : List Char}
    (hdepth : f.content.depth ≤ budget) (hrest : Stops rest) :
    ∃ rest', skipSpace rest' = skipSpace rest ∧
      tree budget (f.text.toList ++ rest) = .ok (f.content, rest') := by
  obtain ⟨blank, htree, hblank⟩ := readAll_eq_ok_iff.mp f.reads
  refine ⟨blank ++ rest, ?_, tree_append htree hdepth hrest⟩
  unfold skipSpace at hblank ⊢
  rw [List.dropWhile_append, hblank]
  rfl

/-- A foreign text is passed over, however deep it is. -/
theorem Foreign.skim_before (f : Foreign) {rest : List Char} (hrest : Stops rest) :
    ∃ rest', skipSpace rest' = skipSpace rest ∧ skim (f.text.toList ++ rest) = .ok rest' := by
  obtain ⟨rest', hskip, htree⟩ := f.tree_before (Nat.le_refl _) hrest
  exact ⟨rest', hskip, skim_of_tree htree⟩

theorem Written.exists_before_eq_cons (w : Written) (rest : List Char) :
    ∃ c tail, skipSpace (w.before rest) = c :: tail ∧ Opens c := by
  cases w with
  | plain v _ =>
    obtain ⟨c, tail, heq, hc⟩ := Json.exists_before_eq_cons v rest
    exact ⟨c, tail, by rw [before, heq, skipSpace_of_opens hc], hc⟩
  | foreign f =>
    obtain ⟨_, htree, -⟩ := readAll_eq_ok_iff.mp f.reads
    obtain ⟨c, tail, hskip, hc⟩ := opens_of_tree htree
    exact ⟨c, tail ++ rest, skipSpace_append hskip rest, hc⟩
  | arr items => exact ⟨'[', _, rfl, by decide⟩
  | obj members => exact ⟨'\x7b', _, rfl, by decide⟩

/-! ## Arrays -/

/-- A reader to which white space in front of a value makes no difference. -/
def IgnoresSpace (reader : Reader α) : Prop :=
  ∀ budget text, reader budget (skipSpace text) = reader budget text

theorem skipSpace_skipSpace (text : List Char) : skipSpace (skipSpace text) = skipSpace text := by
  unfold skipSpace
  exact List.dropWhile_idempotent ..

theorem ignoresSpace_tree : IgnoresSpace tree := by
  intro budget text
  rw [tree.eq_def, tree.eq_def budget text]
  dsimp only
  rw [skipSpace_skipSpace]

/-- An item is read from where it starts, which is not where an array ends. -/
theorem Takes.at_start {reader : Reader α} (hspace : IgnoresSpace reader) {w : Written} {x : α}
    (h : Takes reader w x) {budget : Nat} {rest : List Char} (hdepth : w.value.depth ≤ budget)
    (hrest : Stops rest) :
    ∃ c tail rest', c ≠ ']' ∧ skipSpace (w.before rest) = c :: tail ∧
      skipSpace rest' = skipSpace rest ∧ reader budget (c :: tail) = .ok (x, rest') := by
  obtain ⟨rest', hrest', hread⟩ := h budget rest hdepth hrest
  obtain ⟨c, tail, hskip, hc⟩ := w.exists_before_eq_cons rest
  rw [← hspace, hskip] at hread
  exact ⟨c, tail, rest', fun heq => hc (by rw [heq]; decide), hskip, hrest', hread⟩

theorem stops_moreItemsBefore_written (ws : List Written) (rest : List Char) :
    Stops (Written.moreItemsBefore ws (']' :: rest)) := by
  cases ws with
  | nil => exact stops_of_mem (by decide) rest
  | cons w ws => exact stops_of_mem (by decide) _

theorem itemsRun_more {reader : Reader α} (hspace : IgnoresSpace reader) {budget : Nat}
    {rest : List Char} {ws : List Written} {xs : List α} (h : List.Forall₂ (Takes reader) ws xs) :
    depthOfItems (Written.valueOfItems ws) ≤ budget → ∀ {text : List Char},
      skipSpace text = skipSpace (Written.moreItemsBefore ws (']' :: rest)) →
      ItemsRun (reader budget) false text xs rest := by
  induction h with
  | nil => exact fun _ _ htext => .close htext
  | @cons w x ws xs hw _ ih =>
    intro hdepth text htext
    obtain ⟨hwdepth, hmoredepth⟩ := Nat.max_le.mp hdepth
    obtain ⟨c, tail, rest', hend, hskip, hrest', hread⟩ :=
      hw.at_start hspace hwdepth (stops_moreItemsBefore_written ws rest)
    exact .next (nextItem_eq_some_iff.mpr ⟨c, tail, rfl, hend, _, htext, hskip⟩) hread
      (ih hmoredepth hrest')

/-- The items of an array are read one after another. -/
theorem items_written {reader : Reader α} (hspace : IgnoresSpace reader) {budget : Nat}
    {ws : List Written} {xs : List α} (h : List.Forall₂ (Takes reader) ws xs)
    (hdepth : depthOfItems (Written.valueOfItems ws) ≤ budget) (rest : List Char) :
    items (reader budget) true (Written.itemsBefore ws (']' :: rest)) = .ok (xs, rest) := by
  cases h with
  | nil => rfl
  | @cons w x ws xs hw hmore =>
    obtain ⟨hwdepth, hmoredepth⟩ := Nat.max_le.mp hdepth
    obtain ⟨c, tail, rest', hend, hskip, hrest', hread⟩ :=
      hw.at_start hspace hwdepth (stops_moreItemsBefore_written ws rest)
    have hlength := Written.length_moreItemsBefore ws (']' :: rest)
    have hbefore := Written.length_before w (Written.moreItemsBefore ws (']' :: rest))
    refine items_eq_ok_iff.mpr ⟨.next (nextItem_eq_some_iff.mpr ⟨c, tail, rfl, hend, hskip⟩) hread
      (itemsRun_more hspace hmore hmoredepth hrest'), ?_⟩
    rw [List.length_cons] at hlength
    rw [Written.itemsBefore, List.length_cons, ← hmore.length_eq]
    omega

theorem takes_list {reader : Reader α} (hspace : IgnoresSpace reader) {ws : List Written}
    {xs : List α} (h : List.Forall₂ (Takes reader) ws xs) : Takes (list reader) (.arr ws) xs := by
  intro budget rest hdepth _
  obtain ⟨b, rfl⟩ := exists_budget hdepth
  exact ⟨rest, rfl, items_written hspace h (Nat.le_of_succ_le_succ hdepth) rest⟩

/-! ## Objects -/

/-- One step after another, each from where the one before it has come to. -/
inductive Chain (step : β → σ → σ → Prop) : List β → σ → σ → Prop
  | nil (s : σ) : Chain step [] s s
  | cons {b : β} {bs : List β} {s t u : σ} (hstep : step b s t) (hmore : Chain step bs t u) :
    Chain step (b :: bs) s u

theorem Chain.append {step : β → σ → σ → Prop} {bs bs' : List β} {s t u : σ}
    (h : Chain step bs s t) (h' : Chain step bs' t u) : Chain step (bs ++ bs') s u := by
  induction h with
  | nil => exact h'
  | cons hstep _ ih => exact .cons hstep (ih h')

/-- What a written member makes of what has been gathered before it. -/
def Collects (member : σ → Scan σ) (m : String × Written) (s t : σ) : Prop :=
  ∀ rest, Stops rest → ∃ rest', skipSpace rest' = skipSpace rest ∧
    member s (escapedBefore m.1 (':' :: m.2.before rest)) = .ok (t, rest')

theorem stops_moreMembersBefore_written (ms : List (String × Written)) (rest : List Char) :
    Stops (Written.moreMembersBefore ms ('\x7d' :: rest)) := by
  cases ms with
  | nil => exact stops_of_mem (by decide) rest
  | cons m ms => exact stops_of_mem (by decide) _

theorem membersRun_more {member : σ → Scan σ} {rest : List Char} {ms : List (String × Written)}
    {s u : σ} (h : Chain (Collects member) ms s u) :
    ∀ {text : List Char},
      skipSpace text = skipSpace (Written.moreMembersBefore ms ('\x7d' :: rest)) →
      MembersRun member ms.length false s text u rest := by
  induction h with
  | nil => exact fun htext => .close htext
  | @cons m ms s t u hmember _ ih =>
    intro text htext
    obtain ⟨rest', hrest', hread⟩ := hmember _ (stops_moreMembersBefore_written ms rest)
    exact .next (nextMember_eq_some_iff.mpr ⟨_, htext, rfl⟩) hread (ih hrest')

/-- The members of an object are read one after another. -/
theorem members_written {member : σ → Scan σ} {ms : List (String × Written)} {s u : σ}
    (h : Chain (Collects member) ms s u) (rest : List Char) :
    members member s (Written.membersBefore ms ('\x7d' :: rest)) = .ok (u, rest) := by
  cases h with
  | nil => rfl
  | @cons m ms s t u hmember hmore =>
    obtain ⟨rest', hrest', hread⟩ := hmember _ (stops_moreMembersBefore_written ms rest)
    have hlength := Written.length_moreMembersBefore ms ('\x7d' :: rest)
    have hbefore := Written.length_before m.2 (Written.moreMembersBefore ms ('\x7d' :: rest))
    refine members_eq_ok_iff.mpr ⟨ms.length + 1, ?_,
      .next (nextMember_eq_some_iff.mpr rfl) hread (membersRun_more hmore hrest')⟩
    rw [List.length_cons] at hlength
    rw [Written.membersBefore]
    simp only [stringBefore, List.length_cons, List.length_append]
    omega

theorem depth_le_of_members {ms : List (String × Written)} {budget : Nat}
    (h : (Written.obj ms).value.depth ≤ budget + 1) : ∀ m ∈ ms, m.2.value.depth ≤ budget := by
  intro m hm
  rw [Written.value, Written.valueOfMembers_eq_map] at h
  exact depthOfMembers_le_iff.mp (Nat.le_of_succ_le_succ h) _ (List.mem_map_of_mem hm)

/-- What reading an entry of a map does with the entries before it. -/
def entry (item : Reader α) (budget : Nat) (m : SortedMap UInt64 α) : Scan (SortedMap UInt64 α) :=
  fun text => do
    let (key, text) ← wordKey "u64" text
    let text ← colon text
    let (x, rest) ← item budget text
    .ok (m.insert key x, rest)

theorem collects_entries {item : Reader α} {budget : Nat} {ms : List (String × Written)}
    {entries : List (UInt64 × α)}
    (h : List.Forall₂ (fun m e => m.1 = toString e.1.toNat ∧ Takes item m.2 e.2) ms entries)
    (hdepths : ∀ m ∈ ms, m.2.value.depth ≤ budget) (m : SortedMap UInt64 α) :
    Chain (Collects (entry item budget)) ms m
      (entries.foldl (fun m e => m.insert e.1 e.2) m) := by
  induction h generalizing m with
  | nil => exact .nil m
  | @cons written e ms entries hwritten _ ih =>
    obtain ⟨key, w⟩ := written
    obtain ⟨rfl, hw⟩ := hwritten
    obtain ⟨hdepth, hmoredepths⟩ := List.forall_mem_cons.mp hdepths
    refine .cons (fun rest hrest => ?_) (ih hmoredepths (m.insert e.1 e.2))
    obtain ⟨rest', hrest', hread⟩ := hw budget rest hdepth hrest
    refine ⟨rest', hrest', ?_⟩
    rw [entry, wordKey_toString]
    show (item budget (w.before rest) >>= _) = _
    rw [hread]
    rfl

/-- A map is read from its entries in whatever order they are written. -/
theorem takes_wordMap {item : Reader α} {ms : List (String × Written)} {m : SortedMap UInt64 α}
    {entries : List (UInt64 × α)} (hentries : entries.Perm m.entries)
    (h : List.Forall₂ (fun m e => m.1 = toString e.1.toNat ∧ Takes item m.2 e.2) ms entries) :
    Takes (wordMap item) (.obj ms) m := by
  intro budget rest hdepth _
  obtain ⟨b, rfl⟩ := exists_budget hdepth
  refine ⟨rest, rfl, ?_⟩
  rw [← SortedMap.ofList_perm hentries]
  exact members_written (collects_entries h (depth_le_of_members hdepth) .empty) rest

/-! ## As documents of their own -/

theorem collects_treeMember {budget : Nat} :
    ∀ {ms : List (String × Written)} (before : List (String × Json)),
      (∀ m ∈ ms, Takes tree m.2 m.2.value ∧ m.2.value.depth ≤ budget) →
      Chain (Collects (treeMember budget)) ms before ((Written.valueOfMembers ms).reverse ++ before)
  | [], before, _ => .nil before
  | (key, w) :: ms, before, h => by
    obtain ⟨⟨hw, hdepth⟩, hmore⟩ := List.forall_mem_cons.mp h
    rw [Written.valueOfMembers, List.reverse_cons, List.append_assoc]
    refine .cons (fun rest hrest => ?_) (collects_treeMember ((key, w.value) :: before) hmore)
    obtain ⟨rest', hrest', hread⟩ := hw budget rest hdepth hrest
    exact ⟨rest', hrest', treeMember_eq_ok_iff.mpr
      ⟨key, w.value, _, _, string_escapedBefore key _, rfl, hread, rfl⟩⟩

mutual

/-- **A written document is read as its value.** -/
theorem takes_tree : ∀ w : Written, Takes tree w w.value
  | .plain v integral => takes_plain (reads_tree integral) integral
  | .foreign f => fun _ _ hdepth hrest => f.tree_before hdepth hrest
  | .arr ws => by
    intro budget rest hdepth _
    obtain ⟨b, rfl⟩ := exists_budget hdepth
    refine ⟨rest, rfl, ?_⟩
    rw [Written.before, tree_arr]
    exact mapScan_eq_ok_iff.mpr ⟨_, items_written ignoresSpace_tree (takes_tree_items ws)
      (Nat.le_of_succ_le_succ hdepth) rest, rfl⟩
  | .obj ms => by
    intro budget rest hdepth _
    obtain ⟨b, rfl⟩ := exists_budget hdepth
    refine ⟨rest, rfl, ?_⟩
    have hcollects : Chain (Collects (treeMember b)) ms [] _ := collects_treeMember []
      fun m hm => ⟨takes_tree_members ms m hm, depth_le_of_members hdepth m hm⟩
    rw [Written.before, tree_obj]
    refine mapScan_eq_ok_iff.mpr ⟨_, members_written hcollects rest, ?_⟩
    rw [List.append_nil, List.reverse_reverse, Written.value]

theorem takes_tree_items :
    ∀ ws : List Written, List.Forall₂ (Takes tree) ws (Written.valueOfItems ws)
  | [] => .nil
  | w :: ws => .cons (takes_tree w) (takes_tree_items ws)

theorem takes_tree_members :
    ∀ (ms : List (String × Written)), ∀ m ∈ ms, Takes tree m.2 m.2.value
  | (_, w) :: ms => List.forall_mem_cons.mpr ⟨takes_tree w, takes_tree_members ms⟩
  | [] => List.forall_mem_nil _

end

end OperatorModes.Json
