import OperatorModes.Proofs.Json.Reader

/-!
# The indented spelling read back

The two spellings of a document differ in white space only: a line break and spaces in front of every
item, member and closing bracket, and a space behind every colon. A reader passes over white space
wherever it looks for the next token, so it takes the same steps through either spelling
(`tree_prettyBefore`). What is printed is in canonical form, hence what is read back is:

> `readAll_pretty`: the text of a document is one document, and that is its canonical form.
-/

namespace OperatorModes.Json

/-! ## White space -/

theorem skipSpace_lineBefore (indent : Nat) (text : List Char) :
    skipSpace (lineBefore indent text) = skipSpace text := by
  have hspaces : ∀ c ∈ '\n' :: List.replicate (2 * indent) ' ', isSpace c = true := by
    intro c hc
    rcases List.mem_cons.mp hc with rfl | hc
    · rfl
    · rw [List.eq_of_mem_replicate hc]
      rfl
  exact List.dropWhile_append_of_pos hspaces

/-- A reader of values passes over the space behind a colon. -/
theorem tree_space (budget : Nat) (text : List Char) :
    tree budget (' ' :: text) = tree budget text := by
  rw [tree.eq_def, tree.eq_def budget text]
  rfl

theorem stops_lineBefore (indent : Nat) (text : List Char) : Stops (lineBefore indent text) :=
  ⟨rfl, by decide, by decide, by decide⟩

/-! ## How the spelling starts, and how long it is -/

theorem exists_prettyBefore_eq_cons (indent : Nat) (v : Json) (rest : List Char) :
    ∃ c tail, prettyBefore indent v rest = c :: tail ∧ Opens c := by
  cases v with
  | arr items => cases items <;> exact ⟨'[', _, rfl, by decide⟩
  | obj members => cases members <;> exact ⟨'\x7b', _, rfl, by decide⟩
  | null => exact exists_before_eq_cons .null rest
  | bool b => exact exists_before_eq_cons (.bool b) rest
  | num n => exact exists_before_eq_cons (.num n) rest
  | str s => exact exists_before_eq_cons (.str s) rest

theorem length_lineBefore (indent : Nat) (text : List Char) :
    (lineBefore indent text).length = text.length + (2 * indent + 1) := by
  rw [lineBefore, List.length_append, List.length_cons, List.length_replicate]
  omega

theorem length_stringBefore (s : String) (text : List Char) :
    (stringBefore s text).length = text.length + ((s.toList.flatMap escapeChar).length + 2) := by
  rw [stringBefore, List.length_append, List.length_cons, List.length_cons]
  omega

theorem length_before (v : Json) (text : List Char) : text.length ≤ (v.before text).length := by
  rw [before_eq, List.length_append]
  omega

mutual

/-- A spelling is no shorter than the text behind it. -/
theorem length_prettyBefore (indent : Nat) :
    ∀ (v : Json) (text : List Char), text.length ≤ (prettyBefore indent v text).length
  | arr [], text => by
    rw [prettyBefore, List.length_cons, List.length_cons]
    omega
  | arr (v :: rest), text => by
    have hv := length_prettyBefore (indent + 1) v
      (prettyItems indent rest (lineBefore indent (']' :: text)))
    have hrest := length_prettyItems indent rest (lineBefore indent (']' :: text))
    rw [length_lineBefore, List.length_cons] at hrest
    rw [prettyBefore, List.length_cons, length_lineBefore]
    omega
  | obj [], text => by
    rw [prettyBefore, List.length_cons, List.length_cons]
    omega
  | obj ((k, v) :: rest), text => by
    have hv := length_prettyBefore (indent + 1) v
      (prettyMembers indent rest (lineBefore indent ('\x7d' :: text)))
    have hrest := length_prettyMembers indent rest (lineBefore indent ('\x7d' :: text))
    rw [length_lineBefore, List.length_cons] at hrest
    rw [prettyBefore, List.length_cons, length_lineBefore, length_stringBefore, List.length_cons,
      List.length_cons]
    omega
  | null, text => length_before null text
  | bool b, text => length_before (bool b) text
  | num n, text => length_before (num n) text
  | str s, text => length_before (str s) text

theorem length_prettyItems (indent : Nat) :
    ∀ (vs : List Json) (text : List Char),
      vs.length + text.length ≤ (prettyItems indent vs text).length
  | [], text => by simp [prettyItems]
  | v :: rest, text => by
    have hv := length_prettyBefore (indent + 1) v (prettyItems indent rest text)
    have hrest := length_prettyItems indent rest text
    rw [prettyItems, List.length_cons, List.length_cons, length_lineBefore]
    omega

theorem length_prettyMembers (indent : Nat) :
    ∀ (ms : List (String × Json)) (text : List Char),
      ms.length + text.length ≤ (prettyMembers indent ms text).length
  | [], text => by simp [prettyMembers]
  | (k, v) :: rest, text => by
    have hv := length_prettyBefore (indent + 1) v (prettyMembers indent rest text)
    have hrest := length_prettyMembers indent rest text
    rw [prettyMembers, List.length_cons, List.length_cons, length_lineBefore, length_stringBefore,
      List.length_cons, List.length_cons]
    omega

end

/-! ## Items and members -/

theorem nextItem_line (indent : Nat) (v : Json) (rest : List Char) :
    nextItem true (lineBefore indent (prettyBefore indent v rest))
      = .ok (some (prettyBefore indent v rest)) := by
  obtain ⟨c, tail, heq, hc⟩ := exists_prettyBefore_eq_cons indent v rest
  rw [heq]
  exact nextItem_of_opens hc ((skipSpace_lineBefore indent _).trans (skipSpace_of_opens hc tail))

theorem nextItem_comma_line (indent : Nat) (v : Json) (rest : List Char) :
    nextItem false (',' :: lineBefore indent (prettyBefore indent v rest))
      = .ok (some (prettyBefore indent v rest)) := by
  obtain ⟨c, tail, heq, hc⟩ := exists_prettyBefore_eq_cons indent v rest
  rw [heq]
  exact nextItem_comma_of_opens hc
    ((skipSpace_lineBefore indent _).trans (skipSpace_of_opens hc tail))

theorem nextItem_end (indent : Nat) (rest : List Char) :
    nextItem false (lineBefore indent (']' :: rest)) = .ok none := by
  rw [nextItem, skipSpace_lineBefore]
  rfl

theorem closeList_end (indent : Nat) (rest : List Char) :
    closeList (lineBefore indent (']' :: rest)) = .ok rest := by
  rw [closeList, skipSpace_lineBefore]
  rfl

theorem nextMember_line (indent : Nat) (key : String) (text : List Char) :
    nextMember true (lineBefore indent (stringBefore key text))
      = .ok (some (escapedBefore key text)) := by
  rw [nextMember, skipSpace_lineBefore]
  rfl

theorem nextMember_comma_line (indent : Nat) (key : String) (text : List Char) :
    nextMember false (',' :: lineBefore indent (stringBefore key text))
      = .ok (some (escapedBefore key text)) := by
  have hcomma : skipSpace (',' :: lineBefore indent (stringBefore key text))
      = ',' :: lineBefore indent (stringBefore key text) := rfl
  have hskip : skipSpace (lineBefore indent (stringBefore key text))
      = '"' :: escapedBefore key text := skipSpace_lineBefore indent _
  rw [nextMember, hcomma]
  simp [hskip]

theorem nextMember_end (indent : Nat) (rest : List Char) :
    nextMember false (lineBefore indent ('\x7d' :: rest)) = .ok none := by
  rw [nextMember, skipSpace_lineBefore]
  rfl

theorem closeObject_end (indent : Nat) (rest : List Char) :
    closeObject (lineBefore indent ('\x7d' :: rest)) = .ok rest := by
  rw [closeObject, skipSpace_lineBefore]
  rfl

/-! ## Reading -/

/-- The document is read back from its indented spelling, wherever that stands, unless it is deeper
than the budget. -/
def ReadsIndented (v : Json) : Prop :=
  ∀ indent budget rest, Stops rest →
    tree budget (prettyBefore indent v rest) = within v.depth budget (v, rest)

theorem stops_prettyItems (indent : Nat) (vs : List Json) (rest : List Char) :
    Stops (prettyItems indent vs (lineBefore indent rest)) := by
  cases vs with
  | nil => exact stops_lineBefore indent rest
  | cons v vs => exact stops_of_mem (by decide) _

theorem stops_prettyMembers (indent : Nat) (ms : List (String × Json)) (rest : List Char) :
    Stops (prettyMembers indent ms (lineBefore indent rest)) := by
  cases ms with
  | nil => exact stops_lineBefore indent rest
  | cons m ms => exact stops_of_mem (by decide) _

/-- The items after the first. -/
theorem itemsLoop_prettyItems (indent budget : Nat) (rest : List Char) :
    ∀ (vs : List Json) (fuel : Nat), (∀ v ∈ vs, ReadsIndented v) → vs.length < fuel →
      itemsLoop (tree budget) fuel false (prettyItems indent vs (lineBefore indent (']' :: rest)))
        = within (depthOfItems vs) budget (vs, rest)
  | [], fuel + 1, _, _ => by
    -- The closing bracket is on a line of its own, which both looks at it pass over.
    rw [prettyItems, itemsLoop, nextItem_end]
    show (closeList _ >>= _) = _
    rw [closeList_end]
    exact (within_zero budget ([], rest)).symm
  | v :: vs, fuel + 1, hvs, hlt => by
    have hmore := itemsLoop_prettyItems indent budget rest vs fuel
      (fun w hw => hvs w (List.mem_cons_of_mem v hw)) (Nat.lt_of_succ_lt_succ hlt)
    have hv := hvs v List.mem_cons_self (indent + 1) budget _
      (stops_prettyItems indent vs (']' :: rest))
    rw [prettyItems, itemsLoop, nextItem_comma_line]
    show (tree budget _ >>= _) = _
    rw [hv, depthOfItems]
    refine bind_within ?_
    dsimp only
    rw [hmore]
    exact bind_within_ok rfl

theorem treeMember_prettyBefore {v : Json} (hv : ReadsIndented v) (indent budget : Nat)
    (key : String) (before : List (String × Json)) {rest : List Char} (hrest : Stops rest) :
    treeMember budget before (escapedBefore key (':' :: ' ' :: prettyBefore indent v rest))
      = within v.depth budget ((key, v) :: before, rest) := by
  show (string _ >>= _) = _
  rw [string_escapedBefore]
  show (tree budget (' ' :: prettyBefore indent v rest) >>= _) = _
  rw [tree_space, hv indent budget rest hrest]
  exact bind_within_ok rfl

/-- The members after the first. -/
theorem membersLoop_prettyMembers (indent budget : Nat) (rest : List Char) :
    ∀ (ms before : List (String × Json)) (fuel : Nat), (∀ m ∈ ms, ReadsIndented m.2) →
      ms.length < fuel →
      membersLoop (treeMember budget) fuel false before
          (prettyMembers indent ms (lineBefore indent ('\x7d' :: rest)))
        = within (depthOfMembers ms) budget (ms.reverse ++ before, rest)
  | [], before, fuel + 1, _, _ => by
    rw [prettyMembers, membersLoop, nextMember_end]
    show (closeObject _ >>= _) = _
    rw [closeObject_end]
    exact (within_zero budget (before, rest)).symm
  | (key, v) :: ms, before, fuel + 1, hms, hlt => by
    have hmore := membersLoop_prettyMembers indent budget rest ms ((key, v) :: before) fuel
      (fun m hm => hms m (List.mem_cons_of_mem _ hm)) (Nat.lt_of_succ_lt_succ hlt)
    have hv := treeMember_prettyBefore (hms (key, v) List.mem_cons_self) (indent + 1) budget key
      before (stops_prettyMembers indent ms ('\x7d' :: rest))
    rw [prettyMembers, membersLoop, nextMember_comma_line]
    show (treeMember budget before _ >>= _) = _
    rw [hv, depthOfMembers]
    refine bind_within ?_
    dsimp only
    rw [hmore, List.reverse_cons, List.append_assoc, List.singleton_append]

/-- The items of an array, each on its line. -/
theorem items_prettyItems {v : Json} {vs : List Json} (h : ∀ w ∈ v :: vs, ReadsIndented w)
    (indent budget : Nat) (rest : List Char) :
    items (tree budget) true (lineBefore (indent + 1) (prettyBefore (indent + 1) v
        (prettyItems indent vs (lineBefore indent (']' :: rest)))))
      = within (depthOfItems (v :: vs)) budget (v :: vs, rest) := by
  have hv := h v List.mem_cons_self (indent + 1) budget _
    (stops_prettyItems indent vs (']' :: rest))
  -- Behind the first item every item has a comma of its own, so the text is enough fuel.
  have hfuel : vs.length < (lineBefore (indent + 1) (prettyBefore (indent + 1) v
      (prettyItems indent vs (lineBefore indent (']' :: rest))))).length := by
    have hlength := length_prettyBefore (indent + 1) v
      (prettyItems indent vs (lineBefore indent (']' :: rest)))
    have hitems := length_prettyItems indent vs (lineBefore indent (']' :: rest))
    rw [length_lineBefore]
    omega
  have hmore := itemsLoop_prettyItems indent budget rest vs _
    (fun w hw => h w (List.mem_cons_of_mem v hw)) hfuel
  rw [items, itemsLoop, nextItem_line]
  show (tree budget _ >>= _) = _
  rw [hv, depthOfItems]
  refine bind_within ?_
  dsimp only
  rw [hmore]
  exact bind_within_ok rfl

/-- The members of an object, each on its line. -/
theorem members_prettyMembers {key : String} {v : Json} {ms : List (String × Json)}
    (h : ∀ m ∈ (key, v) :: ms, ReadsIndented m.2) (indent budget : Nat) (rest : List Char) :
    members (treeMember budget) [] (lineBefore (indent + 1) (stringBefore key (':' :: ' ' ::
        prettyBefore (indent + 1) v
          (prettyMembers indent ms (lineBefore indent ('\x7d' :: rest))))))
      = within (depthOfMembers ((key, v) :: ms)) budget (((key, v) :: ms).reverse, rest) := by
  have hv := treeMember_prettyBefore (h (key, v) List.mem_cons_self) (indent + 1) budget key []
    (stops_prettyMembers indent ms ('\x7d' :: rest))
  have hfuel : ms.length < (lineBefore (indent + 1) (stringBefore key (':' :: ' ' ::
      prettyBefore (indent + 1) v
        (prettyMembers indent ms (lineBefore indent ('\x7d' :: rest)))))).length := by
    have hlength := length_prettyBefore (indent + 1) v
      (prettyMembers indent ms (lineBefore indent ('\x7d' :: rest)))
    have hmembers := length_prettyMembers indent ms (lineBefore indent ('\x7d' :: rest))
    rw [length_lineBefore, length_stringBefore, List.length_cons, List.length_cons]
    omega
  have hmore := membersLoop_prettyMembers indent budget rest ms [(key, v)] _
    (fun m hm => h m (List.mem_cons_of_mem _ hm)) hfuel
  rw [members, membersLoop, nextMember_line]
  show (treeMember budget [] _ >>= _) = _
  rw [hv, depthOfMembers]
  refine bind_within ?_
  dsimp only
  rw [hmore, List.reverse_cons]

theorem readsIndented_arr {vs : List Json} (h : ∀ v ∈ vs, ReadsIndented v) :
    ReadsIndented (arr vs) := by
  intro indent budget rest _
  cases vs with
  | nil =>
    rw [prettyBefore, tree_arr]
    exact enclosed_within (fun b => (within_zero b (arr [], rest)).symm) budget
  | cons v vs =>
    rw [prettyBefore, tree_arr]
    refine enclosed_within (fun b => ?_) budget
    rw [items_prettyItems h]
    exact mapScan_within arr _ b (v :: vs) rest

theorem readsIndented_obj {ms : List (String × Json)} (h : ∀ m ∈ ms, ReadsIndented m.2) :
    ReadsIndented (obj ms) := by
  intro indent budget rest _
  cases ms with
  | nil =>
    rw [prettyBefore, tree_obj]
    exact enclosed_within (fun b => (within_zero b (obj [], rest)).symm) budget
  | cons m ms =>
    rw [prettyBefore, tree_obj]
    refine enclosed_within (fun b => ?_) budget
    rw [members_prettyMembers h, mapScan_within, List.reverse_reverse]

/-- **Every document without floating-point numbers is read back from its indented spelling.** -/
theorem tree_prettyBefore {v : Json} (h : Integral v) : ReadsIndented v := by
  induction h with
  -- What holds nothing is spelled as in the compact spelling.
  | null => exact fun _ budget rest hrest => reads_tree .null budget rest hrest
  | bool b => exact fun _ budget rest hrest => reads_tree (.bool b) budget rest hrest
  | int hi => exact fun _ budget rest hrest => reads_tree (.int hi) budget rest hrest
  | str s => exact fun _ budget rest hrest => reads_tree (.str s) budget rest hrest
  | arr _ ih => exact readsIndented_arr ih
  | obj _ ih => exact readsIndented_obj ih

theorem canonicalItems_eq_map : ∀ vs : List Json, canonicalItems vs = vs.map canonical
  | [] => rfl
  | v :: vs => by rw [canonicalItems, List.map_cons, canonicalItems_eq_map vs]

/-- **What is printed is one document.** It is the canonical form of what was to be printed. -/
theorem readAll_pretty {v : Json} (h : Integral v.canonical)
    (hdepth : v.canonical.depth ≤ depthLimit) : readAll tree v.pretty = .ok v.canonical := by
  have hread : tree depthLimit v.pretty.toList
      = within v.canonical.depth depthLimit (v.canonical, []) := by
    rw [pretty, String.toList_ofList]
    exact tree_prettyBefore h 0 depthLimit [] trivial
  unfold readAll
  rw [hread, within, if_pos hdepth]
  rfl

end OperatorModes.Json
