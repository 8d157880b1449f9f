import OperatorModes.Json.Reader
import OperatorModes.Proofs.Json.Printer
import OperatorModes.Proofs.SortedMap

/-!
# Readers read back what was written

A reader of a type and the document of one of its values belong together when the reader, put in
front of the compact spelling of the document, takes exactly that and returns the value, unless the
document is deeper than the budget:

> `Reads reader v x`

The depth is exact. `within` says what a reading of some depth comes to, and its two laws carry the
budget through every reader: one reading after another gets as far as the deeper of the two
(`bind_within`), and a bracket takes one from the budget and adds one to the depth
(`enclosed_within`). An object is read member by member; `Gathers` says what each of them makes of
what was gathered before it, and one lemma (`members_membersBefore`) turns that into a reading of
the whole object. Documents, maps and records are instances of it.
-/

namespace OperatorModes.Json

variable {α β σ : Type}

/-! ## What the budget allows -/

/-- The result of reading a document of some depth: a value unless the budget is less. -/
def within (depth budget : Nat) (a : α) : Except ReadError α :=
  if depth ≤ budget then .ok a else .error .tooDeep

@[simp] theorem within_zero (budget : Nat) (a : α) : within 0 budget a = .ok a :=
  if_pos (Nat.zero_le budget)

/-- What comes of reading a document of some depth, a value or a fault, unless the budget is less. -/
def bounded (depth budget : Nat) (r : Except ReadError α) : Except ReadError α :=
  if depth ≤ budget then r else .error .tooDeep

/-- One reading after another gets as far as the deeper of the two, whatever comes of the second. -/
theorem bind_bounded {d d' budget : Nat} {a : α} {r : Except ReadError β}
    {f : α → Except ReadError β} (hf : f a = bounded d' budget r) :
    within d budget a >>= f = bounded (max d d') budget r := by
  unfold within
  unfold bounded at hf ⊢
  by_cases hd : d ≤ budget
  · rw [if_pos hd]
    show f a = _
    rw [hf]
    by_cases hd' : d' ≤ budget
    · rw [if_pos hd', if_pos (Nat.max_le.mpr ⟨hd, hd'⟩)]
    · rw [if_neg hd', if_neg fun h => hd' (Nat.max_le.mp h).2]
  · rw [if_neg hd, if_neg fun h => hd (Nat.max_le.mp h).1]
    rfl

/-- One reading after another gets as far as the deeper of the two. -/
theorem bind_within {d d' budget : Nat} {a : α} {b : β} {f : α → Except ReadError β}
    (hf : f a = within d' budget b) : within d budget a >>= f = within (max d d') budget b :=
  bind_bounded hf

theorem bounded_error_bind {d budget : Nat} {e : ReadError} {f : α → Except ReadError β} :
    bounded d budget (.error e) >>= f = bounded d budget (.error e) := by
  unfold bounded
  split <;> rfl

theorem bind_within_ok {d budget : Nat} {a : α} {b : β} {f : α → Except ReadError β}
    (hf : f a = .ok b) : within d budget a >>= f = within d budget b := by
  have h : within d budget a >>= f = within (max d 0) budget b :=
    bind_within (hf.trans (within_zero budget b).symm)
  rwa [Nat.max_zero] at h

theorem mapScan_within (f : α → β) (d budget : Nat) (a : α) (rest : List Char) :
    mapScan f (within d budget (a, rest)) = within d budget (f a, rest) := by
  unfold within
  split <;> rfl

theorem enclosed_bounded {d : Nat} {r : Except ReadError α} {inside : Nat → Except ReadError α}
    (h : ∀ b, inside b = bounded d b r) (budget : Nat) :
    enclosed budget inside = bounded (d + 1) budget r := by
  cases budget with
  | zero => rfl
  | succ b =>
    show inside b = _
    rw [h b]
    simp only [bounded, Nat.add_le_add_iff_right]

/-- A bracket takes one from the budget and adds one to the depth. -/
theorem enclosed_within {d : Nat} {a : α} {inside : Nat → Except ReadError α}
    (h : ∀ b, inside b = within d b a) (budget : Nat) :
    enclosed budget inside = within (d + 1) budget a :=
  enclosed_bounded h budget

/-! ## Reading a document as a value -/

/-- **What a reader owes a value**: wherever the spelling of its document stands, the reader takes
that much of the text and returns the value, or finds it too deep, exactly when it is. -/
def Reads (reader : Reader α) (v : Json) (x : α) : Prop :=
  ∀ budget rest, Stops rest → reader budget (v.before rest) = within v.depth budget (x, rest)

theorem Reads.map {reader : Reader α} {v : Json} {x : α} (f : α → β) (h : Reads reader v x) :
    Reads (reader.map f) v (f x) := by
  intro budget rest hrest
  show mapScan f (reader budget (v.before rest)) = _
  rw [h budget rest hrest, mapScan_within]

/-- A reader of values that are decoded from what another reader reads. -/
theorem Reads.decode {reader : Reader β} {v : Json} {b : β} {a : α}
    {f : β → Except ReadError α} (h : Reads reader v b) (hf : f b = .ok a) :
    Reads (fun budget text => do
      let (b, rest) ← reader budget text
      let a ← f b
      .ok (a, rest)) v a := by
  intro budget rest hrest
  show (reader budget (v.before rest) >>= _) = _
  rw [h budget rest hrest]
  refine bind_within_ok ?_
  dsimp only
  rw [hf]
  rfl

theorem readAll_compact {reader : Reader α} {v : Json} {x : α} (h : Reads reader v x) :
    readAll reader v.compact = within v.depth depthLimit x := by
  have hread : reader depthLimit v.compact.toList = within v.depth depthLimit (x, []) := by
    rw [compact, String.toList_ofList]
    exact h depthLimit [] trivial
  unfold readAll
  rw [hread]
  exact bind_within_ok rfl

/-- What a format owes a type: a document of at most 127 levels is read as the value it was written
for, and a deeper one is not read at all. -/
def RoundTrips (encode : α → Json) (reader : Reader α) : Prop :=
  ∀ x : α,
    ((encode x).depth ≤ 127 → readAll reader (encode x).compact = .ok x) ∧
    (128 ≤ (encode x).depth → readAll reader (encode x).compact = .error .tooDeep)

theorem roundTrips_of_reads {encode : α → Json} {reader : Reader α}
    (h : ∀ x, Reads reader (encode x) x) : RoundTrips encode reader := by
  intro x
  rw [readAll_compact (h x)]
  constructor
  · intro hle
    exact if_pos hle
  · intro hgt
    exact if_neg (Nat.not_le.mpr hgt)

/-! ## Words, strings and numbers -/

theorem reads_boolean (b : Bool) : Reads boolean (.bool b) b := by
  intro budget rest _
  cases b <;> rfl

theorem reads_text (s : String) : Reads text (.str s) s := by
  intro budget rest _
  exact string_escapedBefore s rest

theorem fitsWord_toNat (n : UInt64) : FitsWord n.toNat := by
  have hlt := n.toNat_lt
  constructor <;> omega

theorem word?_toNat (n : UInt64) (expected : String) :
    (Number.int n.toNat).word? expected = .ok n := by
  rw [Number.word?, if_pos (Int.natCast_nonneg _), Int.toNat_natCast, UInt64.ofNat_toNat]

theorem reads_word64 (expected : String) (n : UInt64) : Reads (word64 expected) (.word n) n := by
  intro budget rest hrest
  have hnumber : number ((Number.int n.toNat).chars ++ rest) = .ok (.int n.toNat, rest) :=
    number_chars (fitsWord_toNat n) hrest
  obtain ⟨c, tail, heq, hc⟩ := exists_chars_eq_cons (.int n.toNat)
  rw [heq, List.cons_append] at hnumber
  show word64 expected budget ((Number.int n.toNat).chars ++ rest) = _
  rw [heq, List.cons_append, word64, skipSpace_of_opens (opens_of_number hc)]
  dsimp only
  rw [if_pos hc, hnumber]
  show ((Number.int n.toNat).word? expected >>= fun w => Except.ok (w, rest)) = _
  rw [word?_toNat]
  rfl

theorem reads_nullable {reader : Reader α} {ms : List (String × Json)} {x : α}
    (h : Reads reader (.obj ms) x) : Reads (nullable reader) (.obj ms) (some x) :=
  h.map some

/-! ## Arrays -/

theorem stops_moreItemsBefore (vs : List Json) (rest : List Char) :
    Stops (moreItemsBefore vs (']' :: rest)) := by
  cases vs with
  | nil => exact stops_of_mem (by decide) rest
  | cons v vs => exact stops_of_mem (by decide) _

/-- The first item is the value that starts behind the white space. -/
theorem nextItem_of_opens {c : Char} (hc : Opens c) {text tail : List Char}
    (h : skipSpace text = c :: tail) : nextItem true text = .ok (some (c :: tail)) := by
  simp only [Opens, List.mem_cons, List.not_mem_nil, not_or] at hc
  rw [nextItem, h]
  simp [hc]

/-- The item behind a comma is the value that starts behind the white space. -/
theorem nextItem_comma_of_opens {c : Char} (hc : Opens c) {text tail : List Char}
    (h : skipSpace text = c :: tail) : nextItem false (',' :: text) = .ok (some (c :: tail)) := by
  have hcomma : skipSpace (',' :: text) = ',' :: text := rfl
  simp only [Opens, List.mem_cons, List.not_mem_nil, not_or] at hc
  rw [nextItem, hcomma]
  simp [h, hc]

theorem nextItem_before (v : Json) (rest : List Char) :
    nextItem true (v.before rest) = .ok (some (v.before rest)) := by
  obtain ⟨c, tail, heq, hc⟩ := exists_before_eq_cons v rest
  rw [heq, nextItem_of_opens hc (skipSpace_of_opens hc tail)]

theorem nextItem_comma_before (v : Json) (rest : List Char) :
    nextItem false (',' :: v.before rest) = .ok (some (v.before rest)) := by
  obtain ⟨c, tail, heq, hc⟩ := exists_before_eq_cons v rest
  rw [heq, nextItem_comma_of_opens hc (skipSpace_of_opens hc tail)]

/-- The items after the first, each with its comma. -/
theorem itemsLoop_moreItemsBefore {reader : Reader α} {encode : α → Json} (budget : Nat)
    (rest : List Char) :
    ∀ (xs : List α) (fuel : Nat), (∀ x ∈ xs, Reads reader (encode x) x) → xs.length < fuel →
      itemsLoop (reader budget) fuel false (moreItemsBefore (xs.map encode) (']' :: rest))
        = within (depthOfItems (xs.map encode)) budget (xs, rest)
  | [], fuel + 1, _, _ => (within_zero budget ([], rest)).symm
  | x :: xs, fuel + 1, hxs, hlt => by
    have hmore := itemsLoop_moreItemsBefore budget rest xs fuel
      (fun y hy => hxs y (List.mem_cons_of_mem x hy)) (Nat.lt_of_succ_lt_succ hlt)
    have hx := hxs x List.mem_cons_self budget _ (stops_moreItemsBefore (xs.map encode) rest)
    rw [List.map_cons, moreItemsBefore, itemsLoop, nextItem_comma_before]
    show (reader budget _ >>= _) = _
    rw [hx, depthOfItems]
    refine bind_within ?_
    dsimp only
    rw [hmore]
    exact bind_within_ok rfl

theorem items_itemsBefore {reader : Reader α} {encode : α → Json} {xs : List α}
    (h : ∀ x ∈ xs, Reads reader (encode x) x) (budget : Nat) (rest : List Char) :
    items (reader budget) true (itemsBefore (xs.map encode) (']' :: rest))
      = within (depthOfItems (xs.map encode)) budget (xs, rest) := by
  cases xs with
  | nil => exact (within_zero budget ([], rest)).symm
  | cons x xs =>
    have hx := h x List.mem_cons_self budget _ (stops_moreItemsBefore (xs.map encode) rest)
    -- Behind the first item every item has a comma of its own, so the text is enough fuel.
    have hlength := length_moreItemsBefore (']' :: rest) (xs.map encode)
    rw [List.length_map, List.length_cons] at hlength
    have hfuel : xs.length < ((encode x).before
        (moreItemsBefore (xs.map encode) (']' :: rest))).length := by
      rw [before_eq, List.length_append]
      omega
    rw [items, List.map_cons, itemsBefore, itemsLoop, nextItem_before]
    show (reader budget _ >>= _) = _
    rw [hx, depthOfItems]
    refine bind_within ?_
    dsimp only
    rw [itemsLoop_moreItemsBefore budget rest xs _
      (fun y hy => h y (List.mem_cons_of_mem x hy)) hfuel]
    exact bind_within_ok rfl

theorem reads_list {reader : Reader α} {encode : α → Json} {xs : List α}
    (h : ∀ x ∈ xs, Reads reader (encode x) x) : Reads (list reader) (.arr (xs.map encode)) xs := by
  intro budget rest _
  show enclosed budget _ = _
  exact enclosed_within (fun b => items_itemsBefore h b rest) budget

/-! ## Objects -/

/-- A member after the opening quote of its key, in front of a text. -/
def memberBefore (key : String) (v : Json) (text : List Char) : List Char :=
  escapedBefore key (':' :: v.before text)

theorem string_memberBefore (key : String) (v : Json) (text : List Char) :
    string (memberBefore key v text) = .ok (key, ':' :: v.before text) :=
  string_escapedBefore key _

/-- What members make of what has been gathered before them: each of them turns it, within its
depth, into what the next one starts from. -/
inductive Gathers (member : σ → Scan σ) (budget : Nat) : List (String × Json) → σ → σ → Prop
  | nil (s : σ) : Gathers member budget [] s s
  | cons {key : String} {v : Json} {ms : List (String × Json)} {s t u : σ}
      (hmember : ∀ rest, Stops rest →
        member s (memberBefore key v rest) = within v.depth budget (t, rest))
      (hrest : Gathers member budget ms t u) : Gathers member budget ((key, v) :: ms) s u

theorem stops_moreMembersBefore (ms : List (String × Json)) (rest : List Char) :
    Stops (moreMembersBefore ms ('\x7d' :: rest)) := by
  cases ms with
  | nil => exact stops_of_mem (by decide) rest
  | cons m ms => exact stops_of_mem (by decide) _

theorem membersLoop_moreMembersBefore {member : σ → Scan σ} {budget : Nat} {s u : σ}
    {ms : List (String × Json)} (h : Gathers member budget ms s u) (rest : List Char) :
    ∀ fuel, ms.length < fuel →
      membersLoop member fuel false s (moreMembersBefore ms ('\x7d' :: rest))
        = within (depthOfMembers ms) budget (u, rest) := by
  induction h with
  | nil s =>
    intro fuel hlt
    obtain ⟨fuel, rfl⟩ : ∃ n, fuel = n + 1 := ⟨fuel - 1, by omega⟩
    exact (within_zero budget (s, rest)).symm
  | @cons key v ms s t u hmember _ ih =>
    intro fuel hlt
    obtain ⟨fuel, rfl⟩ : ∃ n, fuel = n + 1 := ⟨fuel - 1, by omega⟩
    have hnext := hmember _ (stops_moreMembersBefore ms rest)
    show (member s (memberBefore key v _) >>= _) = _
    rw [hnext, depthOfMembers]
    refine bind_within ?_
    exact ih fuel (Nat.lt_of_succ_lt_succ hlt)

theorem members_membersBefore {member : σ → Scan σ} {budget : Nat} {s u : σ}
    {ms : List (String × Json)} (h : Gathers member budget ms s u) (rest : List Char) :
    members member s (membersBefore ms ('\x7d' :: rest))
      = within (depthOfMembers ms) budget (u, rest) := by
  cases h with
  | nil s => exact (within_zero budget (s, rest)).symm
  | @cons key v ms s t u hmember hrest =>
    have hnext := hmember _ (stops_moreMembersBefore ms rest)
    -- The commas again: the text is enough fuel.
    have hlength := length_moreMembersBefore ('\x7d' :: rest) ms
    rw [List.length_cons] at hlength
    have hfuel : ms.length < (stringBefore key
        (':' :: v.before (moreMembersBefore ms ('\x7d' :: rest)))).length := by
      rw [before_eq]
      simp only [stringBefore, List.length_cons, List.length_append]
      omega
    show (member s (memberBefore key v _) >>= _) = _
    rw [hnext, depthOfMembers]
    refine bind_within ?_
    exact membersLoop_moreMembersBefore hrest rest _ hfuel

/-- A member that cannot be read ends the reading, unless what stands before it is too deep; what
stands behind it is never looked at. -/
theorem membersLoop_of_error {member : σ → Scan σ} {budget : Nat} {s u : σ}
    {ms more : List (String × Json)} {key : String} {v : Json} {e : ReadError}
    (h : Gathers member budget ms s u)
    (herror : ∀ rest, Stops rest → member u (memberBefore key v rest) = .error e)
    (rest : List Char) :
    ∀ fuel, ms.length < fuel →
      membersLoop member fuel false s (moreMembersBefore (ms ++ (key, v) :: more) ('\x7d' :: rest))
        = bounded (depthOfMembers ms) budget (.error e) := by
  induction h with
  | nil s =>
    intro fuel hlt
    obtain ⟨fuel, rfl⟩ : ∃ n, fuel = n + 1 := ⟨fuel - 1, by omega⟩
    show (member s (memberBefore key v _) >>= _) = _
    rw [herror _ (stops_moreMembersBefore more rest)]
    rfl
  | @cons key' v' ms s t u hmember _ ih =>
    intro fuel hlt
    obtain ⟨fuel, rfl⟩ : ∃ n, fuel = n + 1 := ⟨fuel - 1, by omega⟩
    have hnext := hmember _ (stops_moreMembersBefore (ms ++ (key, v) :: more) rest)
    rw [List.cons_append]
    show (member s (memberBefore key' v' _) >>= _) = _
    rw [hnext, depthOfMembers]
    exact bind_bounded (ih herror fuel (Nat.lt_of_succ_lt_succ hlt))

theorem members_of_error {member : σ → Scan σ} {budget : Nat} {s u : σ}
    {ms more : List (String × Json)} {key : String} {v : Json} {e : ReadError}
    (h : Gathers member budget ms s u)
    (herror : ∀ rest, Stops rest → member u (memberBefore key v rest) = .error e)
    (rest : List Char) :
    members member s (membersBefore (ms ++ (key, v) :: more) ('\x7d' :: rest))
      = bounded (depthOfMembers ms) budget (.error e) := by
  cases h with
  | nil s =>
    show (member s (memberBefore key v _) >>= _) = _
    rw [herror _ (stops_moreMembersBefore more rest)]
    rfl
  | @cons key' v' ms s t u hmember hrest =>
    have hnext := hmember _ (stops_moreMembersBefore (ms ++ (key, v) :: more) rest)
    have hlength := length_moreMembersBefore ('\x7d' :: rest) (ms ++ (key, v) :: more)
    rw [List.length_append, List.length_cons, List.length_cons] at hlength
    have hfuel : ms.length < (stringBefore key' (':' :: v'.before
        (moreMembersBefore (ms ++ (key, v) :: more) ('\x7d' :: rest)))).length := by
      rw [before_eq]
      simp only [stringBefore, List.length_cons, List.length_append]
      omega
    rw [List.cons_append]
    show (member s (memberBefore key' v' _) >>= _) = _
    rw [hnext, depthOfMembers]
    exact bind_bounded (membersLoop_of_error hrest herror rest _ hfuel)

/-! ## Whole documents -/

/-- A document in which every number is an integer of 64 bits. -/
inductive Integral : Json → Prop
  | null : Integral null
  | bool (b : Bool) : Integral (bool b)
  | int {i : Int} (h : FitsWord i) : Integral (num (.int i))
  | str (s : String) : Integral (str s)
  | arr {items : List Json} (h : ∀ v ∈ items, Integral v) : Integral (arr items)
  | obj {members : List (String × Json)} (h : ∀ m ∈ members, Integral m.2) :
    Integral (obj members)

theorem integral_word (n : UInt64) : Integral (.word n) :=
  .int (fitsWord_toNat n)

theorem Integral.members {ms : List (String × Json)} (h : Integral (.obj ms)) :
    ∀ m ∈ ms, Integral m.2 := by
  cases h with
  | obj h => exact h

theorem integral_arr_map {encode : α → Json} {xs : List α}
    (h : ∀ x ∈ xs, Integral (encode x)) : Integral (arr (xs.map encode)) := by
  refine .arr fun v hv => ?_
  obtain ⟨x, hx, heq⟩ := List.mem_map.mp hv
  rw [← heq]
  exact h x hx

/-- Reads a member as part of a document. -/
def treeMember (budget : Nat) (before : List (String × Json)) : Scan (List (String × Json)) :=
  fun text => do
    let (key, text) ← string text
    let text ← colon text
    let (value, rest) ← tree budget text
    .ok ((key, value) :: before, rest)

theorem gathers_tree {budget : Nat} :
    ∀ {ms : List (String × Json)} (before : List (String × Json)),
      (∀ m ∈ ms, Reads tree m.2 m.2) →
      Gathers (treeMember budget) budget ms before (ms.reverse ++ before)
  | [], before, _ => .nil before
  | (key, v) :: ms, before, h => by
    rw [List.reverse_cons, List.append_assoc]
    refine .cons ?_ (gathers_tree ((key, v) :: before) fun m hm => h m (List.mem_cons_of_mem _ hm))
    intro rest hstops
    have hv := h (key, v) List.mem_cons_self budget rest hstops
    show (string (memberBefore key v rest) >>= _) = _
    rw [string_memberBefore]
    show (tree budget (v.before rest) >>= _) = _
    rw [hv]
    exact bind_within_ok rfl

theorem tree_of_arr {text inner : List Char} (hopen : skipSpace text = '[' :: inner)
    (budget : Nat) :
    tree budget text = enclosed budget fun b => mapScan arr (items (tree b) true inner) := by
  rw [tree.eq_def]
  dsimp only
  rw [hopen]
  rfl

theorem tree_of_obj {text inner : List Char} (hopen : skipSpace text = '\x7b' :: inner)
    (budget : Nat) :
    tree budget text = enclosed budget fun b => mapScan (fun reversed => obj reversed.reverse)
      (members (treeMember b) [] inner) := by
  rw [tree.eq_def]
  dsimp only
  rw [hopen]
  rfl

theorem tree_arr (budget : Nat) (text : List Char) :
    tree budget ('[' :: text)
      = enclosed budget fun b => mapScan arr (items (tree b) true text) :=
  tree_of_arr rfl budget

theorem tree_obj (budget : Nat) (text : List Char) :
    tree budget ('\x7b' :: text)
      = enclosed budget fun b => mapScan (fun reversed => obj reversed.reverse)
          (members (treeMember b) [] text) :=
  tree_of_obj rfl budget

theorem tree_number {c : Char} (h : (c.isDigit || c == '-') = true) (budget : Nat)
    (rest : List Char) : tree budget (c :: rest) = mapScan num (number (c :: rest)) := by
  have hall : ['n', 't', 'f', '"', '[', '\x7b'].all (fun d => !(d.isDigit || d == '-')) = true := rfl
  have hne : ∀ d ∈ ['n', 't', 'f', '"', '[', '\x7b'], c ≠ d := by
    intro d hd hc
    have hnot := List.all_eq_true.mp hall d hd
    rw [← hc, h] at hnot
    exact Bool.false_ne_true hnot
  simp only [List.forall_mem_cons] at hne
  rw [tree.eq_def]
  simp [skipSpace_of_opens (opens_of_number h), hne, h]

/-- **Every document without floating-point numbers is read back as it is.** -/
theorem reads_tree {v : Json} (h : Integral v) : Reads tree v v := by
  induction h with
  | null => intro budget rest _; rw [tree.eq_def]; rfl
  | bool b => intro budget rest _; rw [tree.eq_def]; cases b <;> rfl
  | @int i h =>
    intro budget rest hrest
    obtain ⟨c, tail, heq, hc⟩ := exists_chars_eq_cons (.int i)
    have hnumber := number_chars h hrest
    rw [heq, List.cons_append] at hnumber
    rw [before, heq, List.cons_append, tree_number hc, hnumber]
    rfl
  | str s =>
    intro budget rest _
    rw [tree.eq_def]
    show mapScan str (string (escapedBefore s rest)) = _
    rw [string_escapedBefore]
    rfl
  | @arr items _ ih =>
    intro budget rest _
    -- An array of documents is a list whose items are written as themselves.
    have hitems : ∀ v ∈ items, Reads tree (id v) v := ih
    rw [before, tree_arr]
    refine enclosed_within (fun b => ?_) budget
    have h := items_itemsBefore hitems b rest
    rw [List.map_id] at h
    exact (congrArg (mapScan arr) h).trans (mapScan_within arr _ b items rest)
  | @obj members _ ih =>
    intro budget rest _
    rw [before, tree_obj]
    refine enclosed_within (fun b => ?_) budget
    rw [members_membersBefore (gathers_tree [] ih) rest, mapScan_within, List.append_nil,
      List.reverse_reverse]

/-! ## Maps by identifiers -/

theorem escapeChar_of_isDigit {c : Char} (h : c.isDigit = true) : escapeChar c = [c] := by
  have hlow : 48 ≤ c.toNat := (Char.isDigit_iff_toNat.mp h).1
  have hquote : c ≠ '"' := fun hc => Bool.false_ne_true ((congrArg Char.isDigit hc).symm.trans h)
  have hslash : c ≠ '\\' := fun hc => Bool.false_ne_true ((congrArg Char.isDigit hc).symm.trans h)
  rw [escapeChar, if_neg hquote, if_neg hslash, if_pos (by omega)]

theorem flatMap_escapeChar_of_isDigit {digits : List Char}
    (h : ∀ c ∈ digits, c.isDigit = true) : digits.flatMap escapeChar = digits := by
  induction digits with
  | nil => rfl
  | cons c digits ih =>
    rw [List.flatMap_cons, escapeChar_of_isDigit (h c List.mem_cons_self),
      ih fun d hd => h d (List.mem_cons_of_mem c hd)]
    rfl

theorem wordKey_toString (n : UInt64) (text : List Char) :
    wordKey "u64" (escapedBefore (toString n.toNat) text) = .ok (n, text) := by
  have hdigits : (toString n.toNat).toList.flatMap escapeChar = Nat.toDigits 10 n.toNat := by
    show n.toNat.repr.toList.flatMap escapeChar = _
    rw [Nat.toList_repr]
    exact flatMap_escapeChar_of_isDigit isDigit_of_mem_toDigits
  have hnumber : number (Nat.toDigits 10 n.toNat ++ '"' :: text) = .ok (.int n.toNat, '"' :: text) :=
    number_toDigits n.toNat_lt (stops_of_mem (by decide) text)
  obtain ⟨d, ds, heq, hd⟩ := exists_toDigits_eq_cons n.toNat
  rw [escapedBefore, hdigits]
  rw [heq, List.cons_append] at hnumber ⊢
  rw [wordKey, hd, Bool.true_or, if_pos rfl, hnumber]
  show ((Number.int n.toNat).word? "u64" >>= fun w => Except.ok (w, text)) = _
  rw [word?_toNat]
  rfl

theorem gathers_wordMap {item : Reader α} {encode : α → Json} (budget : Nat) :
    ∀ {entries : List (UInt64 × α)} (m : SortedMap UInt64 α),
      (∀ e ∈ entries, Reads item (encode e.2) e.2) →
      Gathers (fun (m : SortedMap UInt64 α) text => do
          let (key, text) ← wordKey "u64" text
          let text ← colon text
          let (x, rest) ← item budget text
          .ok (m.insert key x, rest)) budget
        (entries.map fun e => (toString e.1.toNat, encode e.2)) m
        (entries.foldl (fun m e => m.insert e.1 e.2) m)
  | [], m, _ => .nil m
  | (k, x) :: entries, m, h => by
    rw [List.map_cons]
    refine .cons ?_
      (gathers_wordMap budget (m.insert k x) fun e he => h e (List.mem_cons_of_mem _ he))
    intro rest hstops
    have hx := h (k, x) List.mem_cons_self budget rest hstops
    show (wordKey "u64" (escapedBefore (toString k.toNat) _) >>= _) = _
    rw [wordKey_toString]
    show (item budget ((encode x).before rest) >>= _) = _
    rw [hx]
    exact bind_within_ok rfl

theorem reads_wordMap {item : Reader α} {encode : α → Json} {m : SortedMap UInt64 α}
    (h : ∀ e ∈ m.entries, Reads item (encode e.2) e.2) :
    Reads (wordMap item) (.obj (m.entries.map fun e => (toString e.1.toNat, encode e.2))) m := by
  intro budget rest _
  show enclosed budget _ = _
  refine enclosed_within (fun b => ?_) budget
  have hmembers := members_membersBefore (gathers_wordMap b .empty h) rest
  -- The entries come in the order of their keys, so inserting them one by one rebuilds the map.
  have hrebuilt : m.entries.foldl (fun m e => m.insert e.1 e.2) .empty = m :=
    SortedMap.ofList_entries m
  rw [hrebuilt] at hmembers
  exact hmembers

end OperatorModes.Json
