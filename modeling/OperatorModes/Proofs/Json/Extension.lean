import OperatorModes.Proofs.Json.Run

/-!
# Text behind a document

A document that stands alone is read in the same way where text follows it, as long as that text does
not go on with a number (`Stable`): a reader stops at the first character that is not its own, or at
the end. And what is read does not depend on how much budget there was, as long as there was enough.
Both come together in one lemma, by which any document, with its white space and however it is
spelled, can be put in the place of a value inside another one:

> `tree_append`: `tree budget text = .ok (v, rest)` gives
> `tree budget' (text ++ more) = .ok (v, rest ++ more)` where `v.depth ≤ budget'`
-/

namespace OperatorModes.Json

variable {α β σ : Type}

/-- **A reader that reads on only as far as its own text**: what follows is left as it is. -/
def Stable (read : Scan α) : Prop :=
  ∀ ⦃text rest more : List Char⦄ ⦃a : α⦄, read text = .ok (a, rest) → Stops more →
    read (text ++ more) = .ok (a, rest ++ more)

theorem Stable.map {read : Scan α} (h : Stable read) (f : α → β) :
    Stable fun text => read text >>= fun p => .ok (f p.1, p.2) := by
  intro text rest more b hread hmore
  obtain ⟨⟨a, after⟩, ha, hb⟩ := bind_eq_ok_iff.mp hread
  cases hb
  dsimp only
  rw [h ha hmore]
  rfl

/-! ## White space and words -/

theorem skipSpace_append {text rest : List Char} {c : Char} (h : skipSpace text = c :: rest)
    (more : List Char) : skipSpace (text ++ more) = c :: (rest ++ more) := by
  unfold skipSpace at h ⊢
  rw [List.dropWhile_append, h]
  rfl

theorem word?_append {word : List Char} :
    ∀ {text rest : List Char}, word? word text = .ok rest →
      ∀ more, word? word (text ++ more) = .ok (rest ++ more) := by
  induction word with
  | nil =>
    intro text rest h more
    cases h
    rfl
  | cons w word ih =>
    intro text rest h more
    cases text with
    | nil => cases h
    | cons c text =>
      unfold word? at h
      split at h
      · next hc =>
        rw [List.cons_append, word?, if_pos hc]
        exact ih h more
      · cases h

/-! ## Strings -/

theorem isShort_append {text : List Char} (h : isShort text = false) (more : List Char) :
    isShort (text ++ more) = false := by
  have hsize : ∀ l : List Char,
      isShort l = false ↔ 4 ≤ (String.ofList (l.take 4)).utf8ByteSize := by
    intro l
    rw [isShort, decide_eq_false_iff_not, Nat.not_lt]
  rw [hsize] at h ⊢
  rw [List.take_append, String.ofList_append, String.utf8ByteSize_append]
  omega

/-- In each state the machine does with a character what it would without what follows; only an escape
looks ahead, for whether there is room for its digits. -/
theorem stringTail_append {state : StringState} {done text rest : List Char} {s : String}
    (h : stringTail state done text = .ok (s, rest)) (more : List Char) :
    stringTail state done (text ++ more) = .ok (s, rest ++ more) := by
  fun_induction stringTail state done text <;> grind [stringTail, isShort_append]

theorem string_append {text rest : List Char} {s : String} (h : string text = .ok (s, rest))
    (more : List Char) : string (text ++ more) = .ok (s, rest ++ more) :=
  stringTail_append h more

/-! ## Numbers -/

/-- Digits end where the text that follows them stops a number. -/
theorem spanDigits_append_stops {more : List Char} (hmore : Stops more) :
    ∀ text, spanDigits (text ++ more) = ((spanDigits text).1, (spanDigits text).2 ++ more) := by
  intro text
  induction text with
  | nil =>
    have hnone : ∀ c ∈ ([] : List Char), c.isDigit := List.forall_mem_nil _
    exact spanDigits_append hnone hmore
  | cons c text ih =>
    unfold spanDigits at ih ⊢
    rw [Prod.mk.injEq] at ih
    rw [List.cons_append]
    by_cases hc : c.isDigit = true
    · rw [List.takeWhile_cons_of_pos hc, List.takeWhile_cons_of_pos hc,
        List.dropWhile_cons_of_pos hc, List.dropWhile_cons_of_pos hc, ih.1, ih.2]
    · rw [List.takeWhile_cons_of_neg hc, List.takeWhile_cons_of_neg hc,
        List.dropWhile_cons_of_neg hc, List.dropWhile_cons_of_neg hc, List.cons_append]

theorem stable_someDigits : Stable someDigits := by
  intro text rest more digits h hmore
  unfold someDigits at h
  split at h
  · cases h
  · next c tail =>
    split at h
    · next hc =>
      rw [Except.ok.injEq] at h
      rw [List.cons_append, someDigits, if_pos hc, ← List.cons_append,
        spanDigits_append_stops hmore, h]
    · cases h

theorem stable_integerDigits : Stable integerDigits := by
  intro text rest more digits h hmore
  unfold integerDigits at h
  split at h
  · next c tail =>
    split at h
    · cases h
    · next hc =>
      rw [List.cons_append, List.cons_append, integerDigits, if_neg hc, ← List.cons_append,
        ← List.cons_append]
      exact stable_someDigits h hmore
  · next hzero =>
    have hsome := stable_someDigits h hmore
    unfold integerDigits
    split
    · next c tail heq =>
      -- The text is a zero alone, so the character behind it is that of what follows.
      cases text with
      | nil => cases h
      | cons d text =>
        obtain ⟨rfl, htail⟩ := List.cons.inj heq
        cases text with
        | cons c text => exact absurd rfl (hzero c text)
        | nil =>
          have hhead : more = c :: tail := htail
          subst hhead
          rw [if_neg (by rw [hmore.1]; exact Bool.false_ne_true)]
          exact hsome
    · exact hsome

theorem stable_fractionDigits : Stable fractionDigits := by
  intro text rest more digits h hmore
  cases text with
  | nil =>
    cases h
    exact fractionDigits_of_stops hmore
  | cons c text =>
    by_cases hc : c = '.'
    · subst hc
      exact (stable_someDigits.map some) h hmore
    · unfold fractionDigits at h ⊢
      split at h
      · next heq => exact absurd (List.cons.inj heq).1 hc
      · cases h
        split
        · next heq => exact absurd (List.cons.inj heq).1 hc
        · rfl

theorem stable_exponentPart : Stable exponentPart := by
  let value : List Char → Nat := fun digits => digits.foldl (fun n c => n * 10 + digitValue c) 0
  have hminus := stable_someDigits.map fun digits => some (-(value digits : Int))
  have hplus := stable_someDigits.map fun digits => some (value digits : Int)
  intro text rest more power h hmore
  cases text with
  | nil =>
    cases h
    exact exponentPart_of_stops hmore
  | cons e text =>
    rw [List.cons_append]
    unfold exponentPart at h ⊢
    dsimp only at h ⊢
    by_cases he : e = 'e' ∨ e = 'E'
    · rw [if_pos he] at h ⊢
      cases text with
      -- At least one digit is there, so the sign, if any, is not that of what follows.
      | nil => cases h
      | cons c text =>
        rw [List.cons_append]
        split at h
        · next heq =>
          obtain ⟨rfl, rfl⟩ := List.cons.inj heq
          exact hminus h hmore
        · next heq =>
          obtain ⟨rfl, rfl⟩ := List.cons.inj heq
          exact hplus h hmore
        · next hnominus hnoplus =>
          split
          · next heq => exact absurd (congrArg (· :: text) (List.cons.inj heq).1) (hnominus text)
          · next heq => exact absurd (congrArg (· :: text) (List.cons.inj heq).1) (hnoplus text)
          · exact hplus h hmore
    · rw [if_neg he] at h ⊢
      cases h
      rfl

/-- Whether a number has a minus sign, and what stands behind it. -/
def sign (text : List Char) : Bool × List Char :=
  match text with
  | '-' :: rest => (true, rest)
  | _ => (false, text)

/-- The number of a sign and the digits of its parts. -/
def assemble (negative : Bool) (whole : List Char) (fraction : Option (List Char))
    (power : Option Int) : Except ReadError Number :=
  let (significand, excess) := absorb 0 whole
  match fraction, power with
  | none, none =>
    if excess = 0 then integerNumber negative significand
    else floatNumber negative significand excess
  | _, _ =>
    let digits := fraction.getD []
    let (significand, dropped) := absorb significand digits
    floatNumber negative significand (excess - (digits.length - dropped : Nat) + power.getD 0)

/-- A number is read part by part. -/
theorem number_eq (text : List Char) :
    number text = integerDigits (sign text).2 >>= fun whole => fractionDigits whole.2 >>=
      fun fraction => exponentPart fraction.2 >>= fun power =>
        assemble (sign text).1 whole.1 fraction.1 power.1 >>= fun n => .ok (n, power.2) := by
  show integerDigits (sign text).2 >>= _ = _
  refine bind_congr fun whole => bind_congr fun fraction => bind_congr fun power => ?_
  obtain ⟨whole, _⟩ := whole
  obtain ⟨fraction, _⟩ := fraction
  obtain ⟨power, _⟩ := power
  unfold assemble
  cases fraction with
  | some digits => rfl
  | none =>
    cases power with
    | some exponent => rfl
    | none =>
      dsimp only
      split <;> rfl

theorem number_eq_ok_iff {text rest : List Char} {n : Number} :
    number text = .ok (n, rest) ↔
      ∃ whole behindWhole fraction behindFraction power,
        integerDigits (sign text).2 = .ok (whole, behindWhole) ∧
        fractionDigits behindWhole = .ok (fraction, behindFraction) ∧
        exponentPart behindFraction = .ok (power, rest) ∧
        assemble (sign text).1 whole fraction power = .ok n := by
  rw [number_eq]
  simp only [bind_eq_ok_iff, Prod.exists, Except.ok.injEq, Prod.mk.injEq]
  constructor
  · rintro ⟨whole, _, hwhole, fraction, _, hfraction, power, _, hpower, n, hn, rfl, rfl⟩
    exact ⟨whole, _, fraction, _, power, hwhole, hfraction, hpower, hn⟩
  · rintro ⟨whole, _, fraction, _, power, hwhole, hfraction, hpower, hn⟩
    exact ⟨whole, _, hwhole, fraction, _, hfraction, power, rest, hpower, n, hn, rfl, rfl⟩

theorem sign_append {text : List Char} (h : text ≠ []) (more : List Char) :
    sign (text ++ more) = ((sign text).1, (sign text).2 ++ more) := by
  cases text with
  | nil => exact absurd rfl h
  | cons c text =>
    rw [List.cons_append]
    unfold sign
    split
    · next heq =>
      obtain ⟨rfl, rfl⟩ := List.cons.inj heq
      rfl
    · next hminus =>
      split
      · next heq => exact absurd (congrArg (· :: text ++ more) (List.cons.inj heq).1) (hminus _)
      · rfl

theorem stable_number : Stable number := by
  intro text rest more n h hmore
  obtain ⟨whole, _, fraction, _, power, hwhole, hfraction, hpower, hn⟩ := number_eq_ok_iff.mp h
  have hne : text ≠ [] := by
    intro hnil
    subst hnil
    cases hwhole
  rw [number_eq_ok_iff, sign_append hne]
  exact ⟨whole, _, fraction, _, power, stable_integerDigits hwhole hmore,
    stable_fractionDigits hfraction hmore, stable_exponentPart hpower hmore, hn⟩

/-! ## Arrays and objects -/

theorem nextItem_append {isFirst : Bool} {text start : List Char}
    (h : nextItem isFirst text = .ok (some start)) (more : List Char) :
    nextItem isFirst (text ++ more) = .ok (some (start ++ more)) := by
  rw [nextItem_eq_some_iff] at h ⊢
  obtain ⟨c, tail, rfl, hc, h⟩ := h
  refine ⟨c, tail ++ more, rfl, hc, ?_⟩
  cases isFirst with
  | true => exact skipSpace_append h more
  | false =>
    obtain ⟨rest, heq, hskip⟩ := h
    exact ⟨rest ++ more, skipSpace_append heq more, skipSpace_append hskip more⟩

theorem nextMember_append {isFirst : Bool} {text start : List Char}
    (h : nextMember isFirst text = .ok (some start)) (more : List Char) :
    nextMember isFirst (text ++ more) = .ok (some (start ++ more)) := by
  rw [nextMember_eq_some_iff] at h ⊢
  cases isFirst with
  | true => exact skipSpace_append h more
  | false =>
    obtain ⟨rest, heq, hskip⟩ := h
    exact ⟨rest ++ more, skipSpace_append heq more, skipSpace_append hskip more⟩

theorem colon_append {text rest : List Char} (h : colon text = .ok rest) (more : List Char) :
    colon (text ++ more) = .ok (rest ++ more) := by
  unfold colon at h
  split at h
  · cases h
  · next heq =>
    cases h
    rw [colon, skipSpace_append heq]
    rfl
  · cases h

/-- A run over items goes the same way where text follows it. -/
theorem ItemsRun.append {item item' : Scan α} {more : List Char} {isFirst : Bool}
    {text rest : List Char} {xs : List α} (h : ItemsRun item isFirst text xs rest)
    (hitem : ∀ x ∈ xs, ∀ {text rest}, item text = .ok (x, rest) →
      item' (text ++ more) = .ok (x, rest ++ more)) :
    ItemsRun item' isFirst (text ++ more) xs (rest ++ more) := by
  induction h with
  | close hend => exact .close (skipSpace_append hend more)
  | next hnext hx _ ih =>
    exact .next (nextItem_append hnext more) (hitem _ List.mem_cons_self hx)
      (ih fun y hy => hitem y (List.mem_cons_of_mem _ hy))

/-- A run over members goes the same way where text follows it. What is asked of a member may depend on
what it makes of those before it, since nothing gathered is ever lost. -/
theorem MembersRun.append {member member' : σ → Scan σ} {P : σ → Prop} {more : List Char}
    (hmember : ∀ {s t text rest}, member s text = .ok (t, rest) → P t →
      P s ∧ member' s (text ++ more) = .ok (t, rest ++ more)) {n : Nat} {isFirst : Bool} {s u : σ}
    {text rest : List Char} (h : MembersRun member n isFirst s text u rest) (hu : P u) :
    P s ∧ MembersRun member' n isFirst s (text ++ more) u (rest ++ more) := by
  induction h with
  | close hend => exact ⟨hu, .close (skipSpace_append hend more)⟩
  | next hnext hm _ ih =>
    obtain ⟨ht, hmore⟩ := ih hu
    obtain ⟨hs, hm'⟩ := hmember hm ht
    exact ⟨hs, .next (nextMember_append hnext more) hm' hmore⟩

/-! ## Documents -/

theorem stable_scalar : Stable scalar := by
  have hword : ∀ {word text rest more : List Char} {v w : Json},
      (word? word text >>= fun rest => Except.ok (v, rest)) = .ok (w, rest) →
      (word? word (text ++ more) >>= fun rest => Except.ok (v, rest)) = .ok (w, rest ++ more) := by
    intro word text rest more v w h
    obtain ⟨after, hafter, h⟩ := bind_eq_ok_iff.mp h
    cases h
    rw [word?_append hafter]
    rfl
  intro text rest more v h hmore
  unfold scalar at h ⊢
  cases hskip : skipSpace text with
  | nil =>
    rw [hskip] at h
    cases h
  | cons c after =>
    rw [hskip] at h
    rw [skipSpace_append hskip]
    dsimp only at h ⊢
    split at h
    · next hn => rw [if_pos hn]; exact hword h
    · next hn =>
      rw [if_neg hn]
      split at h
      · next ht => rw [if_pos ht]; exact hword h
      · next ht =>
        rw [if_neg ht]
        split at h
        · next hf => rw [if_pos hf]; exact hword h
        · next hf =>
          rw [if_neg hf]
          split at h
          · next hquote =>
            obtain ⟨s, hs, rfl⟩ := mapScan_eq_ok_iff.mp h
            rw [if_pos hquote]
            exact mapScan_eq_ok_iff.mpr ⟨s, string_append hs more, rfl⟩
          · next hquote =>
            rw [if_neg hquote]
            split at h
            · next hdigit =>
              obtain ⟨n, hnumber, rfl⟩ := mapScan_eq_ok_iff.mp h
              rw [if_pos hdigit]
              exact mapScan_eq_ok_iff.mpr ⟨n, stable_number hnumber hmore, rfl⟩
            · cases h

/-- **A document stands in any text as it stands alone**, with any budget that its depth allows. -/
theorem tree_append :
    ∀ {budget budget' : Nat} {text rest more : List Char} {v : Json},
      tree budget text = .ok (v, rest) → v.depth ≤ budget' → Stops more →
      tree budget' (text ++ more) = .ok (v, rest ++ more) := by
  intro budget
  induction budget with
  | zero =>
    intro budget' text rest more v h hdepth hmore
    cases tree_eq_ok_iff.mp h with
    | scalar hscalar => exact tree_eq_ok_iff.mpr (.scalar (stable_scalar hscalar hmore))
  | succ budget ih =>
    intro budget' text rest more v h hdepth hmore
    cases tree_eq_ok_iff.mp h with
    | scalar hscalar => exact tree_eq_ok_iff.mpr (.scalar (stable_scalar hscalar hmore))
    | @arr _ _ inner _ vs hopen hlength hrun =>
      obtain ⟨budget', rfl⟩ := exists_budget hdepth
      have hvs : ∀ v ∈ vs, v.depth ≤ budget' :=
        depthOfItems_le_iff.mp (Nat.le_of_succ_le_succ hdepth)
      refine tree_eq_ok_iff.mpr (.arr (skipSpace_append hopen more) ?_
        (hrun.append fun v hv _ _ hitem => ih hitem (hvs v hv) hmore))
      rw [List.length_append]
      exact Nat.le_add_right_of_le hlength
    | @obj _ n _ inner _ reversed hopen hlength hrun =>
      obtain ⟨budget', rfl⟩ := exists_budget hdepth
      have hms : ∀ m ∈ reversed, m.2.depth ≤ budget' := fun m hm =>
        depthOfMembers_le_iff.mp (Nat.le_of_succ_le_succ hdepth) m (List.mem_reverse.mpr hm)
      let P (gathered : List (String × Json)) : Prop := ∀ m ∈ gathered, m.2.depth ≤ budget'
      have hrun' : P [] ∧
          MembersRun (treeMember budget') n true [] (inner ++ more) reversed (rest ++ more) :=
        hrun.append (fun hmember hdepths => ?_) hms
      · refine tree_eq_ok_iff.mpr (.obj (skipSpace_append hopen more) ?_ hrun'.2)
        rw [List.length_append]
        exact Nat.le_add_right_of_le hlength
      · obtain ⟨key, v, _, _, hstring, hcolon, htree, rfl⟩ := treeMember_eq_ok_iff.mp hmember
        obtain ⟨hv, hbefore⟩ := List.forall_mem_cons.mp hdepths
        exact ⟨hbefore, treeMember_eq_ok_iff.mpr ⟨key, v, _, _, string_append hstring more,
          colon_append hcolon more, ih htree hv hmore, rfl⟩⟩

end OperatorModes.Json
