import OperatorModes.Proofs.Json.Token

/-!
# How a document stands in its text

What a reader has to know of a document before it reads it. The text behind the document is left as
it is (`before_append`). Behind the first, items and members each have a comma, so a text is at
least as long as what it holds. An item is no deeper than the array around it. And a value starts
with a character that is neither white space nor what separates or ends the items of an array
(`exists_before_eq_cons`), which holds of every document, floating-point numbers included.
-/

namespace OperatorModes.Json

/-! ## What follows a document -/

theorem stringBefore_append (s : String) (a b : List Char) :
    stringBefore s (a ++ b) = stringBefore s a ++ b := by
  simp only [stringBefore, List.cons_append, List.append_assoc]

mutual

/-- The text after a document is left as it is. -/
theorem before_append : ∀ (v : Json) (a b : List Char), v.before (a ++ b) = v.before a ++ b
  | null, _, _ => rfl
  | bool true, _, _ => rfl
  | bool false, _, _ => rfl
  | num n, a, b => (List.append_assoc n.chars a b).symm
  | str s, a, b => stringBefore_append s a b
  | arr items, a, b => congrArg ('[' :: ·) (itemsBefore_append items (']' :: a) b)
  | obj members, a, b => congrArg ('\x7b' :: ·) (membersBefore_append members ('\x7d' :: a) b)

theorem itemsBefore_append :
    ∀ (vs : List Json) (a b : List Char), itemsBefore vs (a ++ b) = itemsBefore vs a ++ b
  | [], _, _ => rfl
  | v :: rest, a, b => by
    rw [itemsBefore, itemsBefore, moreItemsBefore_append rest, before_append v]

theorem moreItemsBefore_append :
    ∀ (vs : List Json) (a b : List Char), moreItemsBefore vs (a ++ b) = moreItemsBefore vs a ++ b
  | [], _, _ => rfl
  | v :: rest, a, b => by
    rw [moreItemsBefore, moreItemsBefore, moreItemsBefore_append rest, before_append v,
      List.cons_append]

theorem membersBefore_append :
    ∀ (ms : List (String × Json)) (a b : List Char),
      membersBefore ms (a ++ b) = membersBefore ms a ++ b
  | [], _, _ => rfl
  | (k, v) :: rest, a, b => by
    rw [membersBefore, membersBefore, moreMembersBefore_append rest, before_append v,
      ← List.cons_append, stringBefore_append]

theorem moreMembersBefore_append :
    ∀ (ms : List (String × Json)) (a b : List Char),
      moreMembersBefore ms (a ++ b) = moreMembersBefore ms a ++ b
  | [], _, _ => rfl
  | (k, v) :: rest, a, b => by
    rw [moreMembersBefore, moreMembersBefore, moreMembersBefore_append rest, before_append v,
      ← List.cons_append, stringBefore_append, List.cons_append]

end

theorem before_eq (v : Json) (text : List Char) : v.before text = v.chars ++ text :=
  before_append v [] text

/-- The commas alone are as many as the items. -/
theorem length_moreItemsBefore (text : List Char) :
    ∀ vs : List Json, vs.length + text.length ≤ (moreItemsBefore vs text).length
  | [] => by simp [moreItemsBefore]
  | v :: rest => by
    have hrest := length_moreItemsBefore text rest
    rw [moreItemsBefore, before_eq, List.length_cons, List.length_cons, List.length_append]
    omega

theorem length_moreMembersBefore (text : List Char) :
    ∀ ms : List (String × Json), ms.length + text.length ≤ (moreMembersBefore ms text).length
  | [] => by simp [moreMembersBefore]
  | (k, v) :: rest => by
    have hrest := length_moreMembersBefore text rest
    rw [moreMembersBefore, before_eq, List.length_cons, List.length_cons]
    simp only [stringBefore, List.length_cons, List.length_append]
    omega

/-! ## How deep a document is -/

theorem depth_le_of_mem_items {v : Json} :
    ∀ {vs : List Json}, v ∈ vs → v.depth ≤ depthOfItems vs
  | _ :: vs, h => by
    rw [depthOfItems]
    rcases List.mem_cons.mp h with heq | hmem
    · rw [heq]
      exact Nat.le_max_left _ _
    · exact Nat.le_trans (depth_le_of_mem_items hmem) (Nat.le_max_right _ _)

theorem depth_le_of_mem_map {α : Type} {encode : α → Json} {x : α} {xs : List α} (h : x ∈ xs) :
    (encode x).depth ≤ depthOfItems (xs.map encode) :=
  depth_le_of_mem_items (List.mem_map_of_mem h)

theorem depthOfItems_map_le {α : Type} {encode : α → Json} {n : Nat}
    (h : ∀ x, (encode x).depth ≤ n) : ∀ xs : List α, depthOfItems (xs.map encode) ≤ n
  | [] => Nat.zero_le n
  | x :: xs => Nat.max_le.mpr ⟨h x, depthOfItems_map_le h xs⟩

/-! ## How a document starts -/

/-- Whether a value can start with a character: it is neither white space nor what separates or ends
the items of an array. -/
def Opens (c : Char) : Prop :=
  c ∉ [' ', '\n', '\t', '\r', ',', ']']

instance (c : Char) : Decidable (Opens c) :=
  inferInstanceAs (Decidable (c ∉ _))

theorem opens_of_number {c : Char} (h : (c.isDigit || c == '-') = true) : Opens c := by
  intro hmem
  have hall : [' ', '\n', '\t', '\r', ',', ']'].all (fun d => !(d.isDigit || d == '-')) = true := rfl
  have hc := List.all_eq_true.mp hall c hmem
  rw [h] at hc
  exact Bool.false_ne_true hc

theorem skipSpace_of_opens {c : Char} (h : Opens c) (rest : List Char) :
    skipSpace (c :: rest) = c :: rest := by
  have hspace : isSpace c = false := by
    simp only [Opens, List.mem_cons, not_or] at h
    simp [isSpace, h]
  exact List.dropWhile_cons_of_neg (by rw [hspace]; exact Bool.false_ne_true)

theorem exists_layoutDigits_eq_cons (layout : Decimal.Layout) (d : Nat) (k : Int) :
    ∃ c tail, layout.digits d k = c :: tail ∧ c.isDigit = true := by
  obtain ⟨c, ds, heq, hc⟩ := exists_toDigits_eq_cons d
  have hdigits : (toString d).toList = c :: ds := Nat.toList_repr.trans heq
  unfold Decimal.Layout.digits
  rw [hdigits]
  dsimp only
  split
  · cases ds with
    | nil => exact ⟨c, _, rfl, hc⟩
    | cons c' ds => exact ⟨c, _, rfl, hc⟩
  · split
    · exact ⟨c, _, rfl, hc⟩
    · split
      · rename_i hlead
        -- The digits in front of the point are at least one.
        obtain ⟨m, hm⟩ : ∃ m, (k + ((c :: ds).length : Int) - 1 + 1).toNat = m + 1 :=
          ⟨(k + ((c :: ds).length : Int) - 1).toNat, by omega⟩
        rw [hm]
        exact ⟨c, _, rfl, hc⟩
      · exact ⟨'0', _, rfl, rfl⟩

/-- A number starts with a digit or a minus sign. -/
theorem exists_chars_eq_cons (n : Number) :
    ∃ c tail, n.chars = c :: tail ∧ (c.isDigit || c == '-') = true := by
  cases n with
  | int i =>
    cases i with
    | ofNat n =>
      obtain ⟨d, ds, heq, hd⟩ := exists_toDigits_eq_cons n
      exact ⟨d, ds, (chars_ofNat n).trans heq, by rw [hd, Bool.true_or]⟩
    | negSucc n => exact ⟨'-', _, chars_negSucc n, rfl⟩
  | float x =>
    let body := if x.isZero then ['0', '.', '0']
      else numberLayout.digits (Decimal.shortest x).1 (Decimal.shortest x).2
    have hbody : ∃ c tail, body = c :: tail ∧ c.isDigit = true := by
      by_cases hzero : x.isZero = true
      · exact ⟨'0', ['.', '0'], if_pos hzero, rfl⟩
      · obtain ⟨c, tail, heq, hc⟩ := exists_layoutDigits_eq_cons numberLayout _ _
        exact ⟨c, tail, (if_neg hzero).trans heq, hc⟩
    obtain ⟨c, tail, heq, hc⟩ := hbody
    show ∃ c tail, (if x.isNegative then '-' :: body else body) = c :: tail ∧ _
    by_cases hneg : x.isNegative = true
    · exact ⟨'-', body, if_pos hneg, rfl⟩
    · exact ⟨c, tail, (if_neg hneg).trans heq, by rw [hc, Bool.true_or]⟩

theorem exists_before_eq_cons (v : Json) (rest : List Char) :
    ∃ c tail, v.before rest = c :: tail ∧ Opens c := by
  cases v with
  | null => exact ⟨'n', _, rfl, by decide⟩
  | bool b =>
    cases b with
    | true => exact ⟨'t', _, rfl, by decide⟩
    | false => exact ⟨'f', _, rfl, by decide⟩
  | num n =>
    obtain ⟨c, tail, heq, hc⟩ := exists_chars_eq_cons n
    exact ⟨c, tail ++ rest, by rw [before, heq, List.cons_append], opens_of_number hc⟩
  | str s => exact ⟨'"', _, rfl, by decide⟩
  | arr items => exact ⟨'[', _, rfl, by decide⟩
  | obj members => exact ⟨'\x7b', _, rfl, by decide⟩

end OperatorModes.Json
