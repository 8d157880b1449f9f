import Mathlib.Data.List.Forall2

/-!
# First and last with a property

Which element of a list is the first, and which the last, that has a property: the way in which a
walk that stops early, and one in which later findings replace earlier ones, choose between elements.
And which elements go together where two lists are related one by one.
-/

namespace OperatorModes

variable {α : Type} {P : α → Prop}

/-- The element is in the list, has the property, and none before it has. -/
def IsFirst (P : α → Prop) (l : List α) (a : α) : Prop :=
  ∃ before after, l = before ++ a :: after ∧ P a ∧ ∀ b ∈ before, ¬ P b

/-- The element is in the list, has the property, and none after it has. -/
def IsLast (P : α → Prop) (l : List α) (a : α) : Prop :=
  ∃ before after, l = before ++ a :: after ∧ P a ∧ ∀ b ∈ after, ¬ P b

theorem exists_isFirst_of_mem {a : α} (hP : P a) :
    ∀ {l : List α}, a ∈ l → ∃ b, IsFirst P l b
  | c :: rest, h => by
    by_cases hc : P c
    · exact ⟨c, [], rest, rfl, hc, fun b hb => by cases hb⟩
    · have hrest : a ∈ rest := by
        rcases List.mem_cons.mp h with rfl | h
        · exact absurd hP hc
        · exact h
      obtain ⟨b, before, after, hl, hb, hbefore⟩ := exists_isFirst_of_mem hP hrest
      exact ⟨b, c :: before, after, by rw [hl, List.cons_append], hb,
        List.forall_mem_cons.mpr ⟨hc, hbefore⟩⟩

theorem not_isLast_nil {a : α} : ¬ IsLast P [] a := by
  intro hlast
  obtain ⟨before, after, hl, -⟩ := hlast
  exact absurd hl (by simp)

/-- One more element is the last with the property if it has it, and changes nothing if not. -/
theorem isLast_concat_iff {l : List α} {a b : α} :
    IsLast P (l ++ [a]) b ↔ (P a ∧ b = a) ∨ (¬ P a ∧ IsLast P l b) := by
  constructor
  · intro hlast
    obtain ⟨before, after, hl, hb, hafter⟩ := hlast
    -- `b` is the element put at the end, or that element stands somewhere after `b`.
    rcases List.eq_nil_or_concat after with rfl | ⟨after, c, rfl⟩
    · obtain ⟨-, hab⟩ := List.append_inj' hl rfl
      have hba : b = a := (List.cons.inj hab).1.symm
      exact Or.inl ⟨hba ▸ hb, hba⟩
    · rw [List.concat_eq_append] at hl hafter
      rw [← List.cons_append, ← List.append_assoc] at hl
      obtain ⟨hinit, hac⟩ := List.append_inj' hl rfl
      have hca : c = a := (List.cons.inj hac).1.symm
      have hna : ¬ P a := hca ▸ hafter c (by simp)
      exact Or.inr ⟨hna, before, after, hinit, hb,
        fun x hx => hafter x (List.mem_append_left _ hx)⟩
  · intro h
    rcases h with ⟨ha, rfl⟩ | ⟨hna, before, after, rfl, hb, hafter⟩
    · exact ⟨l, [], rfl, ha, fun x hx => by cases hx⟩
    · refine ⟨before, after ++ [a], by simp, hb, fun x hx => ?_⟩
      rcases List.mem_append.mp hx with hx | hx
      · exact hafter x hx
      · rw [List.mem_singleton.mp hx]
        exact hna

theorem IsLast.mem {l : List α} {a : α} (h : IsLast P l a) : a ∈ l := by
  obtain ⟨before, after, rfl, -⟩ := h
  exact List.mem_append_right _ (List.mem_cons_self ..)

theorem IsLast.holds {l : List α} {a : α} (h : IsLast P l a) : P a := by
  obtain ⟨before, after, -, ha, -⟩ := h
  exact ha

theorem exists_isLast_of_mem {a : α} {l : List α} (h : a ∈ l) (hP : P a) :
    ∃ b, IsLast P l b := by
  obtain ⟨b, before, after, hl, hb, hbefore⟩ := exists_isFirst_of_mem hP (List.mem_reverse.mpr h)
  refine ⟨b, after.reverse, before.reverse, ?_, hb,
    fun x hx => hbefore x (List.mem_reverse.mp hx)⟩
  rw [← List.reverse_reverse l, hl]
  simp

/-- If only one element of the list has the property, it is the last one that has. -/
theorem isLast_iff_of_unique {a : α} {l : List α} (h : ∀ b ∈ l, ∀ c ∈ l, P b → P c → b = c) :
    IsLast P l a ↔ a ∈ l ∧ P a := by
  constructor
  · intro hlast
    exact ⟨hlast.mem, hlast.holds⟩
  · intro ha
    obtain ⟨ha, hP⟩ := ha
    obtain ⟨b, hlast⟩ := exists_isLast_of_mem ha hP
    rw [h a ha b hlast.mem hP hlast.holds]
    exact hlast

/-! ## Lists related one by one -/

section

variable {β γ : Type}

/-- Every member of the first list is related to one of the second. -/
theorem exists_mem_of_forall₂ {R : α → β → Prop} :
    ∀ {l : List α} {m : List β}, List.Forall₂ R l m → ∀ a ∈ l, ∃ b ∈ m, R a b
  | [], [], .nil, _, ha => nomatch ha
  | a :: l, b :: m, .cons hab h, x, hx => by
    rcases List.mem_cons.mp hx with rfl | hx
    · exact ⟨b, List.mem_cons_self, hab⟩
    · obtain ⟨y, hy, hxy⟩ := exists_mem_of_forall₂ h x hx
      exact ⟨y, List.mem_cons_of_mem b hy, hxy⟩

/-- Two lists made of one are related one by one as what is made of each of its members. -/
theorem forall₂_map_map_iff {R : β → γ → Prop} {f : α → β} {g : α → γ} {l : List α} :
    List.Forall₂ R (l.map f) (l.map g) ↔ ∀ a ∈ l, R (f a) (g a) := by
  rw [List.forall₂_map_left_iff, List.forall₂_map_right_iff, List.forall₂_same]

end

end OperatorModes
