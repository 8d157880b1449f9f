import Mathlib.Data.List.DropRight
import OperatorModes.Json.Skim
import OperatorModes.Proofs.Json.Extension

/-!
# What can be read can be passed over

A skimmer asks less of a value than a reader: it does not look at the range of numbers, at surrogates
or at how deep brackets nest, so it passes over everything that is read and stops where the reader
does (`skim_of_tree`). Its brackets are on a stack where the reader recurses; so what is said of a value
is that a skimmer which is to pass over it comes out behind it, whatever brackets are open around it
(`Passes`). It needs no more than two of its fuel for every character.
-/

namespace OperatorModes.Json

variable {α : Type}

/-! ## Words, strings and numbers -/

/-- Where a skimmer stands inside a string while a reader is in a state. The second half of a surrogate
pair is an escape of its own to it. -/
def StringState.skim : StringState → SkimString
  | plain => .plain
  | escape => .escape
  | digits missing _ => .digits missing
  | pairEscape _ => .plain
  | pairLetter _ => .escape
  | pairDigits _ missing _ => .digits missing

theorem skimStringTail_of_stringTail {state : StringState} {done text rest : List Char} {s : String}
    (h : stringTail state done text = .ok (s, rest)) :
    skimStringTail state.skim text = .ok rest ∧ rest.length < text.length := by
  fun_induction stringTail state done text <;> grind [skimStringTail, StringState.skim]

theorem skimString_of_string {text rest : List Char} {s : String} (h : string text = .ok (s, rest)) :
    skimString text = .ok rest ∧ rest.length < text.length :=
  skimStringTail_of_stringTail h

theorem length_of_word? {word : List Char} :
    ∀ {text rest : List Char}, word? word text = .ok rest → rest.length ≤ text.length := by
  induction word with
  | nil =>
    intro text rest h
    cases h
    exact Nat.le_refl _
  | cons w word ih =>
    intro text rest h
    cases text with
    | nil => cases h
    | cons c text =>
      unfold word? at h
      split at h
      · exact Nat.le_succ_of_le (ih h)
      · cases h

theorem skimDigits_of_someDigits {text digits rest : List Char}
    (h : someDigits text = .ok (digits, rest)) :
    skimDigits text = .ok rest ∧ rest.length < text.length := by
  unfold someDigits at h
  split at h
  · cases h
  · next c tail =>
    split at h
    · next hc =>
      cases h
      refine ⟨if_pos hc, ?_⟩
      rw [List.dropWhile_cons_of_pos hc]
      exact Nat.lt_succ_of_le ((List.dropWhile_suffix _).length_le)
    · cases h

theorem skimExponent_of_exponentPart {text rest : List Char} {power : Option Int}
    (h : exponentPart text = .ok (power, rest)) :
    skimExponent text = .ok rest ∧ rest.length ≤ text.length := by
  have hdigits : ∀ {f : List Char × List Char → Option Int × List Char} {text : List Char},
      (∀ p, (f p).2 = p.2) → (someDigits text >>= fun p => Except.ok (f p)) = .ok (power, rest) →
      skimDigits text = .ok rest ∧ rest.length < text.length := by
    intro f text hf h
    obtain ⟨p, hsome, h⟩ := bind_eq_ok_iff.mp h
    have hrest : rest = p.2 := by
      rw [← hf p, Except.ok.inj h]
    rw [hrest]
    exact skimDigits_of_someDigits hsome
  cases text with
  | nil =>
    cases h
    exact ⟨rfl, Nat.le_refl _⟩
  | cons e text =>
    unfold exponentPart at h
    dsimp only at h
    split at h
    · next he =>
      split at h
      · obtain ⟨hskim, hlt⟩ := hdigits (fun _ => rfl) h
        rw [skimExponent, if_pos he, List.length_cons, List.length_cons]
        exact ⟨hskim, by omega⟩
      · obtain ⟨hskim, hlt⟩ := hdigits (fun _ => rfl) h
        rw [skimExponent, if_pos he, List.length_cons, List.length_cons]
        exact ⟨hskim, by omega⟩
      · next hminus hplus =>
        obtain ⟨hskim, hlt⟩ := hdigits (fun _ => rfl) h
        unfold skimExponent
        dsimp only
        rw [if_pos he, List.length_cons]
        refine ⟨?_, by omega⟩
        split
        · exact absurd rfl (hminus _)
        · exact absurd rfl (hplus _)
        · exact hskim
    · next he =>
      cases h
      unfold skimExponent
      dsimp only
      rw [if_neg he]
      exact ⟨rfl, Nat.le_refl _⟩

/-- Digits in front of the point are digits that do not go on behind a zero. -/
theorem someDigits_of_integerDigits {text whole rest : List Char}
    (h : integerDigits text = .ok (whole, rest)) :
    someDigits text = .ok (whole, rest) ∧ ∀ c tail, text = '0' :: c :: tail → ¬c.isDigit := by
  unfold integerDigits at h
  split at h
  · next c tail =>
    split at h
    · cases h
    · next hc =>
      refine ⟨h, ?_⟩
      rintro _ _ ⟨⟩
      exact hc
  · next hzero => exact ⟨h, fun c tail htext => absurd htext (hzero c tail)⟩

theorem fractionDigits_cases {text rest : List Char} {fraction : Option (List Char)}
    (h : fractionDigits text = .ok (fraction, rest)) :
    (∃ after ds, text = '.' :: after ∧ someDigits after = .ok (ds, rest)) ∨
      (∀ after, text ≠ '.' :: after) ∧ rest = text := by
  unfold fractionDigits at h
  split at h
  · obtain ⟨⟨ds, after⟩, hsome, h⟩ := bind_eq_ok_iff.mp h
    cases h
    exact Or.inl ⟨_, ds, rfl, hsome⟩
  · next hpoint =>
    cases h
    exact Or.inr ⟨hpoint, rfl⟩

theorem length_of_fractionDigits {text rest : List Char} {fraction : Option (List Char)}
    (h : fractionDigits text = .ok (fraction, rest)) : rest.length ≤ text.length := by
  rcases fractionDigits_cases h with ⟨after, ds, rfl, hsome⟩ | ⟨-, rfl⟩
  · exact Nat.le_succ_of_le (Nat.le_of_lt (skimDigits_of_someDigits hsome).2)
  · exact Nat.le_refl _

theorem skimNumber_of_number {text rest : List Char} {n : Number} (h : number text = .ok (n, rest)) :
    skimNumber (sign text).2 = .ok rest ∧ rest.length < (sign text).2.length := by
  obtain ⟨whole, behindWhole, fraction, behindFraction, power, hwhole, hfraction, hpower, -⟩ :=
    number_eq_ok_iff.mp h
  generalize (sign text).2 = digits at hwhole ⊢
  obtain ⟨hsome, hzero⟩ := someDigits_of_integerDigits hwhole
  obtain ⟨hskim, hwholelength⟩ := skimDigits_of_someDigits hsome
  obtain ⟨hexponent, hpowerlength⟩ := skimExponent_of_exponentPart hpower
  have hfractionlength := length_of_fractionDigits hfraction
  refine ⟨?_, by omega⟩
  have hwholepart : ∀ {behind : List Char → Except ReadError (List Char)},
      behind behindWhole = .ok rest → (skimDigits digits >>= behind) = .ok rest :=
    fun hbehind => bind_eq_ok_iff.mpr ⟨behindWhole, hskim, hbehind⟩
  unfold skimNumber
  rcases fractionDigits_cases hfraction with ⟨after, ds, rfl, hafter⟩ | ⟨hpoint, rfl⟩
  · have hbehind : (skimDigits after >>= skimExponent) = .ok rest :=
      bind_eq_ok_iff.mpr ⟨behindFraction, (skimDigits_of_someDigits hafter).1, hexponent⟩
    split
    · next c tail =>
      rw [if_neg (hzero c tail rfl)]
      exact hwholepart hbehind
    · exact hwholepart hbehind
  · split
    · next c tail =>
      rw [if_neg (hzero c tail rfl)]
      refine hwholepart ?_
      dsimp only
      split
      · exact absurd rfl (hpoint _)
      · exact hexponent
    · refine hwholepart ?_
      dsimp only
      split
      · exact absurd rfl (hpoint _)
      · exact hexponent

theorem length_skipSpace_le (text : List Char) : (skipSpace text).length ≤ text.length :=
  (List.dropWhile_suffix _).length_le

theorem skimScalar_of_scalar {text rest : List Char} {v : Json} (h : scalar text = .ok (v, rest)) :
    skimScalar (skipSpace text) = .ok rest ∧ rest.length < text.length := by
  have hlength := length_skipSpace_le text
  unfold scalar at h
  cases hskip : skipSpace text with
  | nil =>
    rw [hskip] at h
    cases h
  | cons c after =>
    rw [hskip] at h hlength
    rw [List.length_cons] at hlength
    dsimp only at h
    unfold skimScalar
    dsimp only
    have hword : ∀ {word : List Char} {v w : Json},
        (word? word after >>= fun rest => Except.ok (v, rest)) = .ok (w, rest) →
        word? word after = .ok rest ∧ rest.length < text.length := by
      intro word v w h
      obtain ⟨rest', hrest, h⟩ := bind_eq_ok_iff.mp h
      cases h
      have hle := length_of_word? hrest
      exact ⟨hrest, by omega⟩
    split at h
    · next hn => rw [if_pos hn]; exact hword h
    · next hn =>
      rw [if_neg hn]
      split at h
      · next ht => rw [if_pos ht]; exact hword h
      · next ht =>
        rw [if_neg ht]
        split at h
        · next hf => rw [if_pos hf]; exact hword h
        · next hf =>
          rw [if_neg hf]
          split at h
          · next hquote =>
            obtain ⟨s, hs, -⟩ := mapScan_eq_ok_iff.mp h
            obtain ⟨hskim, hlt⟩ := skimString_of_string hs
            rw [if_pos hquote]
            exact ⟨hskim, by omega⟩
          · next hquote =>
            rw [if_neg hquote]
            split at h
            · next hdigit =>
              obtain ⟨n, hnumber, -⟩ := mapScan_eq_ok_iff.mp h
              obtain ⟨hskim, hlt⟩ := skimNumber_of_number hnumber
              by_cases hminus : c = '-'
              · subst hminus
                rw [if_pos rfl]
                have hle : rest.length < after.length := hlt
                exact ⟨hskim, by omega⟩
              · have hsign : sign (c :: after) = (false, c :: after) := by
                  unfold sign
                  split
                  · next heq => exact absurd (List.cons.inj heq).1 hminus
                  · rfl
                rw [hsign, List.length_cons] at hlt
                rw [hsign] at hskim
                rw [if_neg hminus, if_pos]
                · exact ⟨hskim, by omega⟩
                · simpa [hminus] using hdigit
            · cases h

/-! ## Brackets -/

/-- **What is passed over between two places of a text**: from the one, where a value is due, a skimmer
comes to the other with a value behind it, whatever brackets are open around it. -/
def Passes (text rest : List Char) : Prop :=
  rest.length < text.length ∧
    ∃ cost, cost + 1 + 2 * rest.length ≤ 2 * text.length ∧ ∀ fuel frames,
      skimLoop (fuel + cost + 1) .value frames text = skimLoop fuel .closed frames rest

/-- White space in front of a value is passed over with it. -/
theorem Passes.of_space {text start rest : List Char} (h : Passes start rest)
    (hskip : skipSpace text = start) : Passes text rest := by
  obtain ⟨hlt, cost, hcost, hpass⟩ := h
  have hlength := length_skipSpace_le text
  rw [hskip] at hlength
  refine ⟨by omega, cost, by omega, fun fuel frames => ?_⟩
  rw [← hpass fuel frames, skimLoop, skimLoop, ← hskip, skipSpace, skipSpace,
    List.dropWhile_idempotent]

theorem skimLoop_list {text inner : List Char} (hopen : skipSpace text = '[' :: inner) (fuel : Nat)
    (frames : List Frame) :
    skimLoop (fuel + 1) .value frames text = skimLoop fuel .opened (.list :: frames) inner := by
  rw [skimLoop, hopen]
  rfl

theorem skimLoop_object {text inner : List Char} (hopen : skipSpace text = '\x7b' :: inner)
    (fuel : Nat) (frames : List Frame) :
    skimLoop (fuel + 1) .value frames text = skimLoop fuel .opened (.object :: frames) inner := by
  rw [skimLoop, hopen]
  rfl

/-- Where a skimmer is in front of the first item or member, or behind another one. -/
def entering (isFirst : Bool) : SkimState :=
  if isFirst then .opened else .closed

theorem skimLoop_close {frame : Frame} {text rest : List Char}
    (hend : skipSpace text = frame.close :: rest) (isFirst : Bool) (fuel : Nat)
    (frames : List Frame) :
    skimLoop (fuel + 1) (entering isFirst) (frame :: frames) text
      = skimLoop fuel .closed frames rest := by
  cases isFirst with
  | true =>
    show skimLoop (fuel + 1) .opened (frame :: frames) text = _
    rw [skimLoop, hend]
    exact if_pos rfl
  | false =>
    show skimLoop (fuel + 1) .closed (frame :: frames) text = _
    rw [skimLoop, hend]
    exact if_pos rfl

/-- Going on to the first item or member, which starts behind the white space. -/
theorem skimLoop_opened (frame : Frame) {text start after : List Char} {c : Char}
    (hskip : skipSpace text = c :: start) (hc : c ≠ frame.close)
    (henter : frame.enter (c :: start) = .ok after) (fuel : Nat) (frames : List Frame) :
    skimLoop (fuel + 1) .opened (frame :: frames) text
      = skimLoop fuel .value (frame :: frames) after := by
  rw [skimLoop, hskip]
  show (if c = frame.close then _ else _) = _
  rw [if_neg hc, henter]
  rfl

/-- Going on to the next item or member, which starts behind a comma. -/
theorem skimLoop_comma (frame : Frame) {text start after : List Char}
    (hskip : skipSpace text = ',' :: start) (henter : frame.enter start = .ok after) (fuel : Nat)
    (frames : List Frame) :
    skimLoop (fuel + 1) .closed (frame :: frames) text
      = skimLoop fuel .value (frame :: frames) after := by
  have hcomma : ',' ≠ frame.close := by
    cases frame <;> decide
  rw [skimLoop, hskip]
  show (if ',' = frame.close then _ else _) = _
  rw [if_neg hcomma, if_pos rfl, henter]
  rfl

theorem passes_of_scalar {text rest : List Char} {v : Json} (h : scalar text = .ok (v, rest)) :
    Passes text rest := by
  obtain ⟨hskim, hlt⟩ := skimScalar_of_scalar h
  refine ⟨hlt, 0, by omega, fun fuel frames => ?_⟩
  rw [Nat.add_zero, skimLoop]
  split
  · next hopen =>
    rw [scalar_eq_error (by decide) hopen] at h
    cases h
  · next hopen =>
    rw [scalar_eq_error (by decide) hopen] at h
    cases h
  · rw [hskim]
    rfl

theorem ItemsRun.passes {item : Scan α}
    (hitem : ∀ {text x rest}, item text = .ok (x, rest) → Passes text rest) {isFirst : Bool}
    {text rest : List Char} {xs : List α} (h : ItemsRun item isFirst text xs rest) :
    ∃ cost, cost + 2 * rest.length ≤ 2 * text.length + isFirst.toNat ∧ ∀ fuel frames,
      skimLoop (fuel + cost) (entering isFirst) (.list :: frames) text
        = skimLoop fuel .closed frames rest := by
  induction h with
  | @close isFirst text rest hend =>
    have hlength := length_skipSpace_le text
    rw [hend, List.length_cons] at hlength
    exact ⟨1, by omega, fun fuel frames => skimLoop_close hend isFirst fuel frames⟩
  | @next isFirst text start after rest x xs hnext hx _ ih =>
    obtain ⟨more, hmore, hrest⟩ := ih
    rw [Bool.toNat_false, Nat.add_zero] at hmore
    obtain ⟨c, tail, rfl, hc, hstart⟩ := nextItem_eq_some_iff.mp hnext
    have hlength := length_skipSpace_le text
    cases isFirst with
    | true =>
      rw [if_pos rfl] at hstart
      obtain ⟨hlt, cost, hcost, hpass⟩ := hitem hx
      rw [hstart] at hlength
      -- Going on from the bracket takes fuel but no character.
      refine ⟨more + cost + 2, by rw [Bool.toNat_true]; omega, fun fuel frames => ?_⟩
      rw [show fuel + (more + cost + 2) = fuel + more + cost + 1 + 1 by omega]
      show skimLoop _ .opened _ text = _
      rw [skimLoop_opened .list hstart hc rfl, hpass]
      exact hrest fuel frames
    | false =>
      obtain ⟨inner, hcomma, hskip⟩ := hstart
      obtain ⟨hlt, cost, hcost, hpass⟩ := (hitem hx).of_space hskip
      rw [hcomma, List.length_cons] at hlength
      refine ⟨more + cost + 2, by omega, fun fuel frames => ?_⟩
      rw [show fuel + (more + cost + 2) = fuel + more + cost + 1 + 1 by omega]
      show skimLoop _ .closed _ text = _
      rw [skimLoop_comma .list hcomma rfl, hpass]
      exact hrest fuel frames

/-- A key is passed over with the colon behind it. -/
theorem skimKey_of_treeMember {text start after inner : List Char} {key : String}
    (hquote : skipSpace text = '"' :: start) (hstring : string start = .ok (key, after))
    (hcolon : colon after = .ok inner) :
    skimKey text = .ok inner ∧ inner.length + 2 < text.length := by
  have hlength := length_skipSpace_le text
  rw [hquote, List.length_cons] at hlength
  obtain ⟨hskim, hlt⟩ := skimString_of_string hstring
  unfold colon at hcolon
  split at hcolon
  · cases hcolon
  · next heq =>
    cases hcolon
    have hafter := length_skipSpace_le after
    rw [heq, List.length_cons] at hafter
    refine ⟨?_, by omega⟩
    rw [skimKey, hquote]
    show (skimString start >>= _) = _
    rw [hskim]
    refine bind_eq_ok_iff.mpr ⟨after, rfl, ?_⟩
    rw [heq]
    rfl
  · cases hcolon

theorem MembersRun.passes {budget : Nat}
    (htree : ∀ {text v rest}, tree budget text = .ok (v, rest) → Passes text rest) {n : Nat}
    {isFirst : Bool} {before gathered : List (String × Json)} {text rest : List Char}
    (h : MembersRun (treeMember budget) n isFirst before text gathered rest) :
    ∃ cost, cost + 2 * rest.length ≤ 2 * text.length ∧ ∀ fuel frames,
      skimLoop (fuel + cost) (entering isFirst) (.object :: frames) text
        = skimLoop fuel .closed frames rest := by
  induction h with
  | @close isFirst _ text rest hend =>
    have hlength := length_skipSpace_le text
    rw [hend, List.length_cons] at hlength
    exact ⟨1, by omega, fun fuel frames => skimLoop_close hend isFirst fuel frames⟩
  | @next _ isFirst _ _ _ text start after rest hnext hmember _ ih =>
    obtain ⟨more, hmore, hrest⟩ := ih
    obtain ⟨key, v, behindKey, inner, hstring, hcolon, hv, -⟩ := treeMember_eq_ok_iff.mp hmember
    obtain ⟨hlt, cost, hcost, hpass⟩ := htree hv
    have hstart := nextMember_eq_some_iff.mp hnext
    have hlength := length_skipSpace_le text
    cases isFirst with
    | true =>
      rw [if_pos rfl] at hstart
      rw [hstart] at hlength
      have hquote : skipSpace ('"' :: start) = '"' :: start := rfl
      obtain ⟨hkey, hkeylength⟩ := skimKey_of_treeMember hquote hstring hcolon
      refine ⟨more + cost + 2, by omega, fun fuel frames => ?_⟩
      rw [show fuel + (more + cost + 2) = fuel + more + cost + 1 + 1 by omega]
      show skimLoop _ .opened _ text = _
      rw [skimLoop_opened .object hstart (by decide) hkey, hpass]
      exact hrest fuel frames
    | false =>
      obtain ⟨behindComma, hcomma, hskip⟩ := hstart
      rw [hcomma, List.length_cons] at hlength
      obtain ⟨hkey, hkeylength⟩ := skimKey_of_treeMember hskip hstring hcolon
      refine ⟨more + cost + 2, by omega, fun fuel frames => ?_⟩
      rw [show fuel + (more + cost + 2) = fuel + more + cost + 1 + 1 by omega]
      show skimLoop _ .closed _ text = _
      rw [skimLoop_comma .object hcomma hkey, hpass]
      exact hrest fuel frames

theorem passes_of_tree :
    ∀ {budget : Nat} {text rest : List Char} {v : Json},
      tree budget text = .ok (v, rest) → Passes text rest := by
  intro budget
  induction budget with
  | zero =>
    intro text rest v h
    cases tree_eq_ok_iff.mp h with
    | scalar hscalar => exact passes_of_scalar hscalar
  | succ budget ih =>
    intro text rest v h
    have hlength := length_skipSpace_le text
    cases tree_eq_ok_iff.mp h with
    | scalar hscalar => exact passes_of_scalar hscalar
    | @arr _ _ inner _ _ hopen _ hrun =>
      obtain ⟨cost, hcost, hpass⟩ := hrun.passes ih
      rw [hopen, List.length_cons] at hlength
      simp only [Bool.toNat_true] at hcost
      refine ⟨by omega, cost, by omega, fun fuel frames => ?_⟩
      rw [skimLoop_list hopen]
      exact hpass fuel frames
    | @obj _ _ _ inner _ _ hopen _ hrun =>
      obtain ⟨cost, hcost, hpass⟩ := hrun.passes ih
      rw [hopen, List.length_cons] at hlength
      refine ⟨by omega, cost, by omega, fun fuel frames => ?_⟩
      rw [skimLoop_object hopen]
      exact hpass fuel frames

/-- **What can be read can be passed over**, and the text behind it is the same. -/
theorem skim_of_tree {budget : Nat} {text rest : List Char} {v : Json}
    (h : tree budget text = .ok (v, rest)) : skim text = .ok rest := by
  obtain ⟨-, cost, hcost, hpass⟩ := passes_of_tree h
  obtain ⟨fuel, hfuel⟩ : ∃ fuel, 2 * text.length + 2 = fuel + 1 + cost + 1 :=
    ⟨2 * text.length - cost, by omega⟩
  rw [skim, hfuel, hpass]
  rfl

end OperatorModes.Json
