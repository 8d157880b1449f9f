import OperatorModes.Proofs.Json.Reader

/-!
# Readings as runs

What can be said of a text when all that is known of it is that it has been read. A loop over items or
members that has come to its end is a run: one item or member after another up to the closing bracket,
with no fuel in it (`itemsLoop_eq_ok_iff`, `membersLoop_eq_ok_iff`). A document that has been read is
a scalar, or a bracket with a run behind it (`tree_eq_ok_iff`). Whatever one item or member preserves,
a run preserves, which is how a budget bounds the depth of what is read with it:

> `depth_le_of_tree`: `tree budget text = .ok (v, rest) → v.depth ≤ budget`
-/

namespace OperatorModes.Json

variable {α β ε σ : Type}

/-- A computation comes to a value exactly when each of its two parts does. -/
theorem bind_eq_ok_iff {x : Except ε α} {f : α → Except ε β} {b : β} :
    (x >>= f) = .ok b ↔ ∃ a, x = .ok a ∧ f a = .ok b := by
  cases x with
  | error e => exact iff_of_false nofun fun ⟨_, h, _⟩ => nomatch h
  | ok a =>
    constructor
    · intro h
      exact ⟨a, rfl, h⟩
    · intro h
      obtain ⟨a', ha, hf⟩ := h
      cases ha
      exact hf

theorem mapScan_eq_ok_iff {f : α → β} {r : Except ReadError (α × List Char)} {b : β}
    {rest : List Char} : mapScan f r = .ok (b, rest) ↔ ∃ a, r = .ok (a, rest) ∧ f a = b := by
  cases r with
  | error e => exact iff_of_false nofun fun ⟨_, h, _⟩ => nomatch h
  | ok p =>
    obtain ⟨a, rest'⟩ := p
    constructor
    · intro h
      cases h
      exact ⟨a, rfl, rfl⟩
    · intro h
      obtain ⟨a', ha, rfl⟩ := h
      cases ha
      rfl

theorem enclosed_eq_ok_iff {budget : Nat} {inside : Nat → Except ReadError α} {a : α} :
    enclosed budget inside = .ok a ↔ ∃ b, budget = b + 1 ∧ inside b = .ok a := by
  cases budget with
  | zero => exact iff_of_false nofun fun ⟨_, h, _⟩ => nomatch h
  | succ b =>
    constructor
    · intro h
      exact ⟨b, rfl, h⟩
    · intro h
      obtain ⟨b', hb, hinside⟩ := h
      cases hb
      exact hinside

/-- Where a bracket fits in, the budget is not used up. -/
theorem exists_budget {n budget : Nat} (h : n + 1 ≤ budget) : ∃ b, budget = b + 1 :=
  ⟨budget - 1, by omega⟩

/-- A whole document is read when nothing but white space is left behind it. -/
theorem readAll_eq_ok_iff {reader : Reader α} {document : String} {a : α} :
    readAll reader document = .ok a ↔
      ∃ rest, reader depthLimit document.toList = .ok (a, rest) ∧ skipSpace rest = [] := by
  have hblank : ∀ (x : α) (rest : List Char),
      (if (skipSpace rest).isEmpty then Except.ok x else .error ReadError.trailingCharacters) = .ok a ↔
        x = a ∧ skipSpace rest = [] := by
    intro x rest
    cases skipSpace rest with
    | nil => exact Except.ok.injEq x a ▸ (and_iff_left rfl).symm
    | cons c tail => exact iff_of_false nofun fun h => nomatch h.2
  unfold readAll
  simp only [bind_eq_ok_iff, Prod.exists, hblank]
  constructor
  · rintro ⟨x, rest, hread, rfl, hrest⟩
    exact ⟨rest, hread, hrest⟩
  · rintro ⟨rest, hread, hrest⟩
    exact ⟨a, rest, hread, rfl, hrest⟩

/-! ## Items -/

theorem nextItem_eq_none_iff {isFirst : Bool} {text : List Char} :
    nextItem isFirst text = .ok none ↔ ∃ rest, skipSpace text = ']' :: rest := by
  unfold nextItem
  constructor
  · intro h
    split at h
    · cases h
    · next rest heq => exact ⟨rest, heq⟩
    · split at h
      · cases h
      · split at h <;> cases h
    · split at h <;> cases h
  · intro h
    obtain ⟨rest, heq⟩ := h
    rw [heq]
    rfl

/-- Where the next item starts: behind the white space, and behind the comma if it is not the first. -/
theorem nextItem_eq_some_iff {isFirst : Bool} {text start : List Char} :
    nextItem isFirst text = .ok (some start) ↔
      ∃ c tail, start = c :: tail ∧ c ≠ ']' ∧
        if isFirst then skipSpace text = start
        else ∃ rest, skipSpace text = ',' :: rest ∧ skipSpace rest = start := by
  unfold nextItem
  constructor
  · intro h
    split at h
    · cases h
    · cases h
    · next rest heq =>
      cases isFirst with
      | true =>
        cases h
        exact ⟨',', rest, rfl, by decide, heq⟩
      | false =>
        rw [if_neg Bool.false_ne_true] at h
        split at h
        · cases h
        · cases h
        · next hnil hend =>
          cases h
          cases hskip : skipSpace rest with
          | nil => exact absurd hskip hnil
          | cons c tail => exact ⟨c, tail, rfl, fun hc => hend tail (by rw [hskip, hc]), rest, heq, hskip⟩
    · next hnil hend _ =>
      split at h
      · next hfirst =>
        cases h
        cases hskip : skipSpace text with
        | nil => exact absurd hskip hnil
        | cons c tail =>
          refine ⟨c, tail, rfl, fun hc => hend tail (by rw [hskip, hc]), ?_⟩
          rw [if_pos hfirst]
      · cases h
  · intro h
    obtain ⟨c, tail, rfl, hc, h⟩ := h
    cases isFirst with
    | true =>
      rw [show skipSpace text = c :: tail from h]
      split
      · next heq => cases heq
      · next heq => exact absurd (List.cons.inj heq).1 hc
      · next heq => rw [if_pos rfl, heq]
      · rfl
    | false =>
      obtain ⟨rest, heq, hskip⟩ := h
      rw [heq]
      show (if false = true then _ else _) = _
      rw [if_neg Bool.false_ne_true, hskip]
      split
      · next heq => cases heq
      · next heq => exact absurd (List.cons.inj heq).1 hc
      · rfl

theorem closeList_of_end {text rest : List Char} (h : skipSpace text = ']' :: rest) :
    closeList text = .ok rest := by
  unfold closeList
  rw [h]
  rfl

/-- **A run over items**: one after another from a text up to and with the closing bracket, with the
text behind it. -/
inductive ItemsRun (item : Scan α) : Bool → List Char → List α → List Char → Prop
  | close {isFirst : Bool} {text rest : List Char} (hend : skipSpace text = ']' :: rest) :
    ItemsRun item isFirst text [] rest
  | next {isFirst : Bool} {text start after rest : List Char} {x : α} {xs : List α}
      (hnext : nextItem isFirst text = .ok (some start)) (hitem : item start = .ok (x, after))
      (hmore : ItemsRun item false after xs rest) : ItemsRun item isFirst text (x :: xs) rest

theorem itemsLoop_eq_ok_iff {item : Scan α} :
    ∀ {fuel : Nat} {isFirst : Bool} {text rest : List Char} {xs : List α},
      itemsLoop item fuel isFirst text = .ok (xs, rest) ↔
        ItemsRun item isFirst text xs rest ∧ xs.length < fuel := by
  intro fuel
  induction fuel with
  | zero => intro isFirst text rest xs; exact iff_of_false nofun fun h => Nat.not_lt_zero _ h.2
  | succ fuel ih =>
    intro isFirst text rest xs
    rw [itemsLoop, bind_eq_ok_iff]
    constructor
    · intro h
      obtain ⟨next, hnext, h⟩ := h
      cases next with
      | none =>
        obtain ⟨after, hend⟩ := nextItem_eq_none_iff.mp hnext
        rw [closeList_of_end hend] at h
        cases h
        exact ⟨.close hend, Nat.succ_pos fuel⟩
      | some start =>
        obtain ⟨⟨x, after⟩, hitem, h⟩ := bind_eq_ok_iff.mp h
        obtain ⟨⟨xs, rest'⟩, hmore, h⟩ := bind_eq_ok_iff.mp h
        cases h
        obtain ⟨hrun, hlt⟩ := ih.mp hmore
        exact ⟨.next hnext hitem hrun, Nat.succ_lt_succ hlt⟩
    · intro h
      obtain ⟨hrun, hlt⟩ := h
      cases hrun with
      | close hend =>
        refine ⟨none, nextItem_eq_none_iff.mpr ⟨rest, hend⟩, ?_⟩
        dsimp only
        rw [closeList_of_end hend]
        rfl
      | next hnext hitem hmore =>
        refine ⟨_, hnext, ?_⟩
        dsimp only
        rw [hitem]
        show (itemsLoop item fuel false _ >>= _) = _
        rw [ih.mpr ⟨hmore, Nat.lt_of_succ_lt_succ hlt⟩]
        rfl

theorem items_eq_ok_iff {item : Scan α} {isFirst : Bool} {text rest : List Char} {xs : List α} :
    items item isFirst text = .ok (xs, rest) ↔
      ItemsRun item isFirst text xs rest ∧ xs.length ≤ text.length := by
  rw [items, itemsLoop_eq_ok_iff, Nat.lt_succ_iff]

/-- What holds of every item that is read on its own holds of every item of a run. -/
theorem ItemsRun.forall {item : Scan α} {P : α → Prop}
    (hitem : ∀ {text x rest}, item text = .ok (x, rest) → P x) {isFirst : Bool}
    {text rest : List Char} {xs : List α} (h : ItemsRun item isFirst text xs rest) :
    ∀ x ∈ xs, P x := by
  induction h with
  | close => exact List.forall_mem_nil _
  | next _ hx _ ih => exact List.forall_mem_cons.mpr ⟨hitem hx, ih⟩

/-! ## Members -/

theorem nextMember_eq_none_iff {isFirst : Bool} {text : List Char} :
    nextMember isFirst text = .ok none ↔ ∃ rest, skipSpace text = '\x7d' :: rest := by
  unfold nextMember
  constructor
  · intro h
    split at h
    · cases h
    · next rest heq => exact ⟨rest, heq⟩
    · split at h <;> cases h
    · split at h
      · cases h
      · split at h <;> cases h
    · split at h <;> cases h
  · intro h
    obtain ⟨rest, heq⟩ := h
    rw [heq]
    rfl

/-- Where the next member starts: behind the quote that opens its key. -/
theorem nextMember_eq_some_iff {isFirst : Bool} {text start : List Char} :
    nextMember isFirst text = .ok (some start) ↔
      if isFirst then skipSpace text = '"' :: start
      else ∃ rest, skipSpace text = ',' :: rest ∧ skipSpace rest = '"' :: start := by
  unfold nextMember
  constructor
  · intro h
    split at h
    · cases h
    · cases h
    · next rest heq =>
      split at h
      · next hfirst =>
        cases h
        rw [if_pos hfirst]
        exact heq
      · cases h
    · next rest heq =>
      split at h
      · cases h
      · next hfirst =>
        rw [if_neg hfirst]
        split at h
        · cases h
        · next hskip =>
          cases h
          exact ⟨rest, heq, hskip⟩
        · cases h
        · cases h
    · split at h
      · cases h
      · cases h
  · intro h
    cases isFirst with
    | true =>
      rw [show skipSpace text = '"' :: start from h]
      rfl
    | false =>
      obtain ⟨rest, heq, hskip⟩ := h
      rw [heq]
      show (if false = true then _ else _) = _
      rw [if_neg Bool.false_ne_true, hskip]
      rfl

theorem closeObject_of_end {text rest : List Char} (h : skipSpace text = '\x7d' :: rest) :
    closeObject text = .ok rest := by
  unfold closeObject
  rw [h]
  rfl

/-- **A run over members**: so many of them one after another from a text up to and with the closing
brace, with what they make of what was gathered before, and the text behind the brace. -/
inductive MembersRun (member : σ → Scan σ) : Nat → Bool → σ → List Char → σ → List Char → Prop
  | close {isFirst : Bool} {s : σ} {text rest : List Char} (hend : skipSpace text = '\x7d' :: rest) :
    MembersRun member 0 isFirst s text s rest
  | next {n : Nat} {isFirst : Bool} {s t u : σ} {text start after rest : List Char}
      (hnext : nextMember isFirst text = .ok (some start))
      (hmember : member s start = .ok (t, after))
      (hmore : MembersRun member n false t after u rest) :
      MembersRun member (n + 1) isFirst s text u rest

theorem membersLoop_eq_ok_iff {member : σ → Scan σ} :
    ∀ {fuel : Nat} {isFirst : Bool} {s u : σ} {text rest : List Char},
      membersLoop member fuel isFirst s text = .ok (u, rest) ↔
        ∃ n < fuel, MembersRun member n isFirst s text u rest := by
  intro fuel
  induction fuel with
  | zero =>
    intro isFirst s u text rest
    exact iff_of_false nofun fun ⟨_, h, _⟩ => Nat.not_lt_zero _ h
  | succ fuel ih =>
    intro isFirst s u text rest
    rw [membersLoop, bind_eq_ok_iff]
    constructor
    · intro h
      obtain ⟨next, hnext, h⟩ := h
      cases next with
      | none =>
        obtain ⟨after, hend⟩ := nextMember_eq_none_iff.mp hnext
        rw [closeObject_of_end hend] at h
        cases h
        exact ⟨0, Nat.succ_pos fuel, .close hend⟩
      | some start =>
        obtain ⟨⟨t, after⟩, hmember, h⟩ := bind_eq_ok_iff.mp h
        obtain ⟨n, hlt, hrun⟩ := ih.mp h
        exact ⟨n + 1, Nat.succ_lt_succ hlt, .next hnext hmember hrun⟩
    · intro h
      obtain ⟨n, hlt, hrun⟩ := h
      cases hrun with
      | close hend =>
        refine ⟨none, nextMember_eq_none_iff.mpr ⟨rest, hend⟩, ?_⟩
        dsimp only
        rw [closeObject_of_end hend]
        rfl
      | next hnext hmember hmore =>
        refine ⟨_, hnext, ?_⟩
        dsimp only
        rw [hmember]
        exact ih.mpr ⟨_, Nat.lt_of_succ_lt_succ hlt, hmore⟩

theorem members_eq_ok_iff {member : σ → Scan σ} {s u : σ} {text rest : List Char} :
    members member s text = .ok (u, rest) ↔
      ∃ n ≤ text.length, MembersRun member n true s text u rest := by
  rw [members, membersLoop_eq_ok_iff]
  simp only [Nat.lt_succ_iff]

/-- What every member preserves, a run preserves. -/
theorem MembersRun.preserves {member : σ → Scan σ} {P : σ → Prop}
    (hmember : ∀ {s t text rest}, P s → member s text = .ok (t, rest) → P t) {n : Nat}
    {isFirst : Bool} {s u : σ} {text rest : List Char}
    (h : MembersRun member n isFirst s text u rest) (hs : P s) : P u := by
  induction h with
  | close => exact hs
  | next _ hm _ ih => exact ih (hmember hs hm)

/-! ## Documents -/

/-- Reads a word, a string or a number. -/
def scalar : Scan Json := fun text =>
  match skipSpace text with
  | [] => .error .endInValue
  | c :: rest =>
    if c = 'n' then do
      let rest ← word? ['u', 'l', 'l'] rest
      .ok (null, rest)
    else if c = 't' then do
      let rest ← word? ['r', 'u', 'e'] rest
      .ok (bool true, rest)
    else if c = 'f' then do
      let rest ← word? ['a', 'l', 's', 'e'] rest
      .ok (bool false, rest)
    else if c = '"' then mapScan str (string rest)
    else if c.isDigit || c == '-' then mapScan num (number (c :: rest))
    else .error .expectedValue

/-- **How a document is read**: as a scalar, or by a run behind its bracket. -/
inductive TreeStep : Nat → List Char → Json → List Char → Prop
  | scalar {budget : Nat} {text rest : List Char} {v : Json}
      (hscalar : scalar text = .ok (v, rest)) : TreeStep budget text v rest
  | arr {budget : Nat} {text inner rest : List Char} {vs : List Json}
      (hopen : skipSpace text = '[' :: inner) (hlength : vs.length ≤ inner.length)
      (hrun : ItemsRun (tree budget) true inner vs rest) : TreeStep (budget + 1) text (arr vs) rest
  | obj {budget n : Nat} {text inner rest : List Char} {reversed : List (String × Json)}
      (hopen : skipSpace text = '\x7b' :: inner) (hlength : n ≤ inner.length)
      (hrun : MembersRun (treeMember budget) n true [] inner reversed rest) :
      TreeStep (budget + 1) text (obj reversed.reverse) rest

theorem tree_of_scalar {text : List Char} (harr : ∀ inner, skipSpace text ≠ '[' :: inner)
    (hobj : ∀ inner, skipSpace text ≠ '\x7b' :: inner) (budget : Nat) :
    tree budget text = scalar text := by
  rw [tree.eq_def, scalar]
  dsimp only
  cases hskip : skipSpace text with
  | nil => rfl
  | cons c rest =>
    have hlist : c ≠ '[' := fun hc => harr rest (by rw [hskip, hc])
    have hbrace : c ≠ '\x7b' := fun hc => hobj rest (by rw [hskip, hc])
    simp only [if_neg hlist, if_neg hbrace]

theorem scalar_eq_error {text inner : List Char} {c : Char} (hc : c ∈ ['[', '\x7b'])
    (hopen : skipSpace text = c :: inner) : scalar text = .error .expectedValue := by
  rw [scalar, hopen]
  simp only [List.mem_cons, List.not_mem_nil, or_false] at hc
  rcases hc with rfl | rfl <;> rfl

theorem tree_eq_ok_iff {budget : Nat} {text rest : List Char} {v : Json} :
    tree budget text = .ok (v, rest) ↔ TreeStep budget text v rest := by
  constructor
  · intro h
    by_cases harr : ∃ inner, skipSpace text = '[' :: inner
    · obtain ⟨inner, hopen⟩ := harr
      rw [tree_of_arr hopen, enclosed_eq_ok_iff] at h
      obtain ⟨b, rfl, h⟩ := h
      obtain ⟨vs, hitems, rfl⟩ := mapScan_eq_ok_iff.mp h
      obtain ⟨hrun, hlength⟩ := items_eq_ok_iff.mp hitems
      exact .arr hopen hlength hrun
    · by_cases hobj : ∃ inner, skipSpace text = '\x7b' :: inner
      · obtain ⟨inner, hopen⟩ := hobj
        rw [tree_of_obj hopen, enclosed_eq_ok_iff] at h
        obtain ⟨b, rfl, h⟩ := h
        obtain ⟨reversed, hmembers, rfl⟩ := mapScan_eq_ok_iff.mp h
        obtain ⟨n, hlength, hrun⟩ := members_eq_ok_iff.mp hmembers
        exact .obj hopen hlength hrun
      · rw [tree_of_scalar (not_exists.mp harr) (not_exists.mp hobj)] at h
        exact .scalar h
  · intro h
    cases h with
    | scalar hscalar =>
      rw [← hscalar]
      refine tree_of_scalar (fun inner hopen => ?_) (fun inner hopen => ?_) budget
      · rw [scalar_eq_error (by decide) hopen] at hscalar
        cases hscalar
      · rw [scalar_eq_error (by decide) hopen] at hscalar
        cases hscalar
    | arr hopen hlength hrun =>
      rw [tree_of_arr hopen, enclosed_eq_ok_iff]
      exact ⟨_, rfl, mapScan_eq_ok_iff.mpr ⟨_, items_eq_ok_iff.mpr ⟨hrun, hlength⟩, rfl⟩⟩
    | obj hopen hlength hrun =>
      rw [tree_of_obj hopen, enclosed_eq_ok_iff]
      exact ⟨_, rfl, mapScan_eq_ok_iff.mpr ⟨_, members_eq_ok_iff.mpr ⟨_, hlength, hrun⟩, rfl⟩⟩

theorem treeMember_eq_ok_iff {budget : Nat} {before gathered : List (String × Json)}
    {text rest : List Char} :
    treeMember budget before text = .ok (gathered, rest) ↔
      ∃ key v after start, string text = .ok (key, after) ∧ colon after = .ok start ∧
        tree budget start = .ok (v, rest) ∧ gathered = (key, v) :: before := by
  unfold treeMember
  simp only [bind_eq_ok_iff, Prod.exists, Except.ok.injEq, Prod.mk.injEq]
  constructor
  · rintro ⟨key, after, hstring, start, hcolon, v, rest', htree, rfl, rfl⟩
    exact ⟨key, v, after, start, hstring, hcolon, htree, rfl⟩
  · rintro ⟨key, v, after, start, hstring, hcolon, htree, rfl⟩
    exact ⟨key, after, hstring, start, hcolon, v, rest, htree, rfl, rfl⟩

/-! ## Depth and budget -/

theorem depth_of_scalar {text rest : List Char} {v : Json} (h : scalar text = .ok (v, rest)) :
    v.depth = 0 := by
  unfold scalar at h
  split at h
  · cases h
  · repeat' split at h
    all_goals first
      | (obtain ⟨_, -, h⟩ := bind_eq_ok_iff.mp h; cases h; rfl)
      | (obtain ⟨_, -, rfl⟩ := mapScan_eq_ok_iff.mp h; rfl)
      | cases h

theorem depthOfItems_le_iff {n : Nat} :
    ∀ {vs : List Json}, depthOfItems vs ≤ n ↔ ∀ v ∈ vs, v.depth ≤ n
  | [] => iff_of_true (Nat.zero_le n) (List.forall_mem_nil _)
  | v :: vs => by
    rw [depthOfItems, Nat.max_le, List.forall_mem_cons, depthOfItems_le_iff]

theorem depthOfMembers_le_iff {n : Nat} :
    ∀ {ms : List (String × Json)}, depthOfMembers ms ≤ n ↔ ∀ m ∈ ms, m.2.depth ≤ n
  | [] => iff_of_true (Nat.zero_le n) (List.forall_mem_nil _)
  | (k, v) :: ms => by
    rw [depthOfMembers, Nat.max_le, List.forall_mem_cons, depthOfMembers_le_iff]

/-- **Nothing deeper than its budget is read.** -/
theorem depth_le_of_tree :
    ∀ {budget : Nat} {text rest : List Char} {v : Json},
      tree budget text = .ok (v, rest) → v.depth ≤ budget := by
  intro budget
  induction budget with
  | zero =>
    intro text rest v h
    cases tree_eq_ok_iff.mp h with
    | scalar hscalar => exact Nat.le_of_eq (depth_of_scalar hscalar)
  | succ budget ih =>
    intro text rest v h
    cases tree_eq_ok_iff.mp h with
    | scalar hscalar => exact Nat.le_trans (Nat.le_of_eq (depth_of_scalar hscalar)) (Nat.zero_le _)
    | arr _ _ hrun =>
      exact Nat.succ_le_succ (depthOfItems_le_iff.mpr (hrun.forall fun hitem => ih hitem))
    | @obj _ n _ _ _ reversed hopen hlength hrun =>
      have hall : ∀ m ∈ reversed, m.2.depth ≤ budget := by
        refine hrun.preserves (P := fun gathered => ∀ m ∈ gathered, m.2.depth ≤ budget)
          (fun hbefore hmember => ?_) (List.forall_mem_nil _)
        obtain ⟨key, v, _, _, -, -, htree, rfl⟩ := treeMember_eq_ok_iff.mp hmember
        exact List.forall_mem_cons.mpr ⟨ih htree, hbefore⟩
      refine Nat.succ_le_succ (depthOfMembers_le_iff.mpr fun m hm => ?_)
      exact hall m (List.mem_reverse.mp hm)

end OperatorModes.Json
