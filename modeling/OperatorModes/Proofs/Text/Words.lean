import Mathlib.Data.List.Basic
import OperatorModes.Text.Blank

/-!
# Words and the white space between them

What the words of a text are can be said without a scan: the text falls into words with white space
between each two, perhaps some before the first and behind the last, and no word goes on where the
next piece starts. There is one way to part a text like this, and the scan finds it:

> `words_eq_iff`: `words t` are the words that `t` can be parted into.

Single spaces between words are one kind of white space, so a text with nothing else in it
(`SingleSpaced`) is determined by its words, and collapsing a text makes it one of these without
touching its words:

> `collapse_eq_iff`: a text collapses to a single-spaced one exactly if both have the same words.
-/

namespace OperatorModes.Text

/-- Nothing but white space. -/
def AllBlank (gap : List Char) : Prop := ∀ c ∈ gap, isBlank c = true

/-- Something, and no white space in it. -/
structure IsWord (w : List Char) : Prop where
  ne_nil : w ≠ []
  unblank : ∀ c ∈ w, isBlank c = false

/-- A word ends here: so does the text, or white space begins. -/
def WordEnd (rest : List Char) : Prop := ∀ c ∈ rest.head?, isBlank c = true

theorem wordEnd_nil : WordEnd [] := fun _ hc => nomatch hc

theorem wordEnd_cons {c : Char} {rest : List Char} : WordEnd (c :: rest) ↔ isBlank c = true := by
  unfold WordEnd
  simp only [List.head?_cons, Option.mem_some_iff, forall_eq']

/-- **The text parted into its words.** A word follows on white space, if there is any, and ends where
the text does or where white space begins. -/
inductive Parted : List Char → List (List Char) → Prop
  | blank {gap : List Char} (hgap : AllBlank gap) : Parted gap []
  | word {gap w rest : List Char} {ws : List (List Char)} (hgap : AllBlank gap) (hw : IsWord w)
      (hend : WordEnd rest) (hrest : Parted rest ws) :
      Parted (gap ++ (w ++ rest)) (w :: ws)

/-! ## The scan -/

theorem words_cons_of_blank {c : Char} (hc : isBlank c = true) (t : List Char) :
    words (c :: t) = words t := by
  rw [words.eq_def]
  exact if_pos hc

theorem words_append_of_allBlank :
    ∀ {gap : List Char}, AllBlank gap → ∀ t : List Char, words (gap ++ t) = words t
  | [], _, _ => rfl
  | c :: gap, h, t => by
    obtain ⟨hc, hgap⟩ := List.forall_mem_cons.mp h
    rw [List.cons_append, words_cons_of_blank hc, words_append_of_allBlank hgap]

theorem words_cons_of_end {c : Char} {rest : List Char} (hc : isBlank c = false)
    (hend : WordEnd rest) : words (c :: rest) = [c] :: words rest := by
  rw [words.eq_def]
  refine (if_neg (Bool.eq_false_iff.mp hc)).trans ?_
  cases rest with
  | nil => rfl
  | cons d rest => exact if_pos (wordEnd_cons.mp hend)

theorem words_cons_cons {c d : Char} (hc : isBlank c = false) (hd : isBlank d = false)
    (rest : List Char) : words (c :: d :: rest) = extendWord c (words (d :: rest)) := by
  rw [words.eq_def]
  exact (if_neg (Bool.eq_false_iff.mp hc)).trans (if_neg (Bool.eq_false_iff.mp hd))

theorem words_append_of_isWord {rest : List Char} (hend : WordEnd rest) :
    ∀ {w : List Char}, IsWord w → words (w ++ rest) = w :: words rest
  | [], hw => absurd rfl hw.ne_nil
  | [c], hw => words_cons_of_end (hw.unblank c List.mem_cons_self) hend
  | c :: d :: w, hw => by
    obtain ⟨hc, hmore⟩ := List.forall_mem_cons.mp hw.unblank
    have ih : words (d :: w ++ rest) = (d :: w) :: words rest :=
      words_append_of_isWord hend ⟨List.cons_ne_nil d w, hmore⟩
    rw [List.cons_append, List.cons_append, words_cons_cons hc (hmore d List.mem_cons_self),
      ← List.cons_append, ih, extendWord]

theorem Parted.words_eq {t : List Char} {ws : List (List Char)} (h : Parted t ws) :
    words t = ws := by
  induction h with
  | @blank gap hgap =>
    rw [← List.append_nil gap, words_append_of_allBlank hgap, words]
  | word hgap hw hend _ ih =>
    rw [words_append_of_allBlank hgap, words_append_of_isWord hend hw, ih]

theorem isWord_singleton {c : Char} (hc : isBlank c = false) : IsWord [c] :=
  ⟨List.cons_ne_nil c [], List.forall_mem_singleton.mpr hc⟩

/-- A word that starts at once. -/
theorem Parted.cons_word {w rest : List Char} {ws : List (List Char)} (h : Parted rest ws)
    (hw : IsWord w) (hend : WordEnd rest) : Parted (w ++ rest) (w :: ws) := by
  rw [← List.nil_append (w ++ rest)]
  exact .word (List.forall_mem_nil _) hw hend h

/-- White space in front makes no difference. -/
theorem Parted.cons_blank {c : Char} {t : List Char} {ws : List (List Char)}
    (hc : isBlank c = true) (h : Parted t ws) : Parted (c :: t) ws := by
  cases h with
  | blank hgap => exact .blank (List.forall_mem_cons.mpr ⟨hc, hgap⟩)
  | @word gap w rest ws hgap hw hend hrest =>
    have hwider : AllBlank (c :: gap) := List.forall_mem_cons.mpr ⟨hc, hgap⟩
    exact .word hwider hw hend hrest

/-- A character of a word in front of another one belongs to the same word. -/
theorem Parted.extend {c d : Char} {t : List Char} {ws : List (List Char)} (hc : isBlank c = false)
    (hd : isBlank d = false) (h : Parted (d :: t) ws) :
    Parted (c :: d :: t) (extendWord c ws) := by
  generalize htext : d :: t = text at h
  cases h with
  | blank hgap =>
    rw [← htext] at hgap
    exact absurd (hgap d List.mem_cons_self) (Bool.eq_false_iff.mp hd)
  | @word gap w rest ws hgap hw hend hrest =>
    cases gap with
    | nil =>
      have hlonger : IsWord (c :: w) :=
        ⟨List.cons_ne_nil c w, List.forall_mem_cons.mpr ⟨hc, hw.unblank⟩⟩
      exact hrest.cons_word hlonger hend
    | cons b gap =>
      obtain ⟨rfl, -⟩ := List.cons.inj htext
      exact absurd (hgap d List.mem_cons_self) (Bool.eq_false_iff.mp hd)

theorem parted_words (t : List Char) : Parted t (words t) := by
  induction t with
  | nil => exact .blank (List.forall_mem_nil _)
  | cons c rest ih =>
    cases hc : isBlank c with
    | true =>
      rw [words_cons_of_blank hc]
      exact ih.cons_blank hc
    | false =>
      -- The character is a word of its own, or the first of the word that starts behind it.
      cases rest with
      | nil =>
        rw [words_cons_of_end hc wordEnd_nil]
        exact ih.cons_word (isWord_singleton hc) wordEnd_nil
      | cons d rest =>
        cases hd : isBlank d with
        | true =>
          rw [words_cons_of_end hc (wordEnd_cons.mpr hd)]
          exact ih.cons_word (isWord_singleton hc) (wordEnd_cons.mpr hd)
        | false =>
          rw [words_cons_cons hc hd]
          exact ih.extend hc hd

/-- **The scan finds the one way to part a text into words.** -/
theorem words_eq_iff {t : List Char} {ws : List (List Char)} : words t = ws ↔ Parted t ws := by
  constructor
  · intro h
    rw [← h]
    exact parted_words t
  · exact Parted.words_eq

/-! ## Texts with the same words -/

/-- The texts can be parted into the same words, in the same order. -/
def SameWords (s t : String) : Prop := ∃ ws, Parted s.toList ws ∧ Parted t.toList ws

theorem sameWords_iff {s t : String} : SameWords s t ↔ words s.toList = words t.toList := by
  constructor
  · intro h
    obtain ⟨ws, hs, ht⟩ := h
    rw [hs.words_eq, ht.words_eq]
  · intro h
    exact ⟨words t.toList, words_eq_iff.mp h, parted_words t.toList⟩

instance (s t : String) : Decidable (SameWords s t) :=
  decidable_of_iff (words s.toList = words t.toList) sameWords_iff.symm

theorem SameWords.refl (s : String) : SameWords s s := sameWords_iff.mpr rfl

theorem SameWords.symm {s t : String} (h : SameWords s t) : SameWords t s :=
  sameWords_iff.mpr (sameWords_iff.mp h).symm

theorem SameWords.trans {s t u : String} (hst : SameWords s t) (htu : SameWords t u) :
    SameWords s u :=
  sameWords_iff.mpr ((sameWords_iff.mp hst).trans (sameWords_iff.mp htu))

/-! ## Single spaces -/

/-- There is exactly one space between each two words, and no other white space. -/
def SingleSpaced (s : String) : Prop :=
  ∃ ws, (∀ w ∈ ws, IsWord w) ∧ s.toList = [' '].intercalate ws

theorem parted_intercalate :
    ∀ {ws : List (List Char)}, (∀ w ∈ ws, IsWord w) → Parted ([' '].intercalate ws) ws
  | [], _ => .blank (List.forall_mem_nil _)
  | [w], h => by
    have hnil : Parted [] [] := .blank (List.forall_mem_nil _)
    have hone : Parted (w ++ []) [w] := hnil.cons_word (h w List.mem_cons_self) wordEnd_nil
    rw [List.append_nil] at hone
    rwa [List.intercalate_singleton]
  | w :: w' :: ws, h => by
    obtain ⟨hw, hmore⟩ := List.forall_mem_cons.mp h
    have hrest : Parted (' ' :: [' '].intercalate (w' :: ws)) (w' :: ws) :=
      (parted_intercalate hmore).cons_blank rfl
    rw [List.intercalate_cons_cons, List.append_assoc]
    exact hrest.cons_word hw (wordEnd_cons.mpr rfl)

theorem Parted.isWord {t : List Char} {ws : List (List Char)} (h : Parted t ws) :
    ∀ w ∈ ws, IsWord w := by
  induction h with
  | blank _ => exact List.forall_mem_nil _
  | word _ hw _ _ ih => exact List.forall_mem_cons.mpr ⟨hw, ih⟩

theorem toList_collapse (s : String) : (collapse s).toList = [' '].intercalate (words s.toList) := by
  rw [collapse, String.toList_intercalate, List.map_map]
  have hsame : String.toList ∘ String.ofList = id := funext fun _ => String.toList_ofList
  rw [hsame, List.map_id]
  rfl

theorem singleSpaced_collapse (s : String) : SingleSpaced (collapse s) :=
  ⟨words s.toList, (parted_words s.toList).isWord, toList_collapse s⟩

theorem sameWords_collapse (s : String) : SameWords s (collapse s) := by
  refine ⟨words s.toList, parted_words s.toList, ?_⟩
  rw [toList_collapse]
  exact parted_intercalate (parted_words s.toList).isWord

/-- Single spaces are no part of what two texts can differ in. -/
theorem SingleSpaced.eq_of_sameWords {s t : String} (hs : SingleSpaced s) (ht : SingleSpaced t)
    (h : SameWords s t) : s = t := by
  obtain ⟨ws, hws, hs⟩ := hs
  obtain ⟨vs, hvs, ht⟩ := ht
  rw [sameWords_iff, hs, ht, (parted_intercalate hws).words_eq, (parted_intercalate hvs).words_eq]
    at h
  rw [← String.toList_inj, hs, ht, h]

/-- **A text collapses to a single-spaced one exactly if both have the same words.** -/
theorem collapse_eq_iff {s t : String} (ht : SingleSpaced t) : collapse s = t ↔ SameWords s t := by
  constructor
  · intro h
    rw [← h]
    exact sameWords_collapse s
  · intro h
    exact (singleSpaced_collapse s).eq_of_sameWords ht ((sameWords_collapse s).symm.trans h)

theorem singleSpaced_iff {s : String} : SingleSpaced s ↔ collapse s = s := by
  constructor
  · intro h
    exact (collapse_eq_iff h).mpr (.refl s)
  · intro h
    rw [← h]
    exact singleSpaced_collapse s

instance (s : String) : Decidable (SingleSpaced s) :=
  decidable_of_iff (collapse s = s) singleSpaced_iff.symm

end OperatorModes.Text
