import OperatorModes.Qualifier

/-!
# The chain of qualifiers

The order laws of the chain and the join as its maximum. All of them are facts about ranks.
-/

namespace OperatorModes.Qualifier

variable {a b c : Qualifier}

theorem le_refl (a : Qualifier) : a ≤ a := Nat.le_refl a.rank

theorem le_trans (hab : a ≤ b) (hbc : b ≤ c) : a ≤ c := Nat.le_trans hab hbc

theorem le_antisymm (hab : a ≤ b) (hba : b ≤ a) : a = b :=
  rank_inj.mp (Nat.le_antisymm hab hba)

theorem not_le : ¬ a ≤ b ↔ b < a := Nat.not_le

theorem not_lt : ¬ a < b ↔ b ≤ a := Nat.not_lt

theorem ne_of_lt (h : a < b) : a ≠ b := by
  intro hab
  subst hab
  exact Nat.lt_irrefl _ h

theorem pureVal_le (a : Qualifier) : pureVal ≤ a := Nat.zero_le a.rank

theorem le_temporal (a : Qualifier) : a ≤ temporal := by
  cases a <;> decide

theorem not_le_defn : ¬ a ≤ defn ↔ action ≤ a := Nat.not_le

/-- The join is the least upper bound. -/
theorem join_le_iff : a.join b ≤ c ↔ a ≤ c ∧ b ≤ c := by
  rw [le_iff_rank, rank_join, Nat.max_le]
  exact Iff.rfl

theorem pureVal_join (a : Qualifier) : pureVal.join a = a := by
  cases a <;> rfl

theorem join_eq_left_iff : a.join b = a ↔ b ≤ a := by
  rw [← rank_inj, rank_join, le_iff_rank]
  omega

end OperatorModes.Qualifier
