/-!
# Durations

A span of time in whole nanoseconds. Its text is in the largest unit that is not above it, with an
exact decimal fraction.
-/

namespace OperatorModes.Backend

/-- A span of time. -/
structure Duration where
  nanoseconds : Nat
  deriving DecidableEq, Repr

namespace Duration

instance : LE Duration := ⟨fun a b => a.nanoseconds ≤ b.nanoseconds⟩
instance : LT Duration := ⟨fun a b => a.nanoseconds < b.nanoseconds⟩
instance (a b : Duration) : Decidable (a ≤ b) :=
  inferInstanceAs (Decidable (a.nanoseconds ≤ b.nanoseconds))
instance (a b : Duration) : Decidable (a < b) :=
  inferInstanceAs (Decidable (a.nanoseconds < b.nanoseconds))
instance : Add Duration := ⟨fun a b => ⟨a.nanoseconds + b.nanoseconds⟩⟩

/-- No time at all. -/
def zero : Duration := ⟨0⟩

/-- So many milliseconds. -/
def ofMilliseconds (n : Nat) : Duration := ⟨1000000 * n⟩

/-- So many seconds and nanoseconds. -/
def ofSeconds (seconds nanoseconds : Nat) : Duration := ⟨seconds * 1000000000 + nanoseconds⟩

/-- The shorter of two durations. -/
def min (a b : Duration) : Duration := if a ≤ b then a else b

theorem le_iff {a b : Duration} : a ≤ b ↔ a.nanoseconds ≤ b.nanoseconds := Iff.rfl

theorem lt_iff {a b : Duration} : a < b ↔ a.nanoseconds < b.nanoseconds := Iff.rfl

@[simp] theorem nanoseconds_zero : zero.nanoseconds = 0 := rfl

@[simp] theorem nanoseconds_ofMilliseconds (n : Nat) :
    (ofMilliseconds n).nanoseconds = 1000000 * n := rfl

@[simp] theorem nanoseconds_add (a b : Duration) :
    (a + b).nanoseconds = a.nanoseconds + b.nanoseconds := rfl

@[simp] theorem nanoseconds_min (a b : Duration) :
    (a.min b).nanoseconds = Min.min a.nanoseconds b.nanoseconds := by
  unfold Duration.min
  by_cases h : a ≤ b
  · rw [if_pos h, Nat.min_eq_left h]
  · rw [if_neg h, Nat.min_eq_right (Nat.le_of_not_le h)]

/-- The decimals of a fraction with so many places, without zeros at the end. -/
def decimals (fraction places : Nat) : List Char :=
  let digits := (toString fraction).toList
  let padded := List.replicate (places - digits.length) '0' ++ digits
  (padded.reverse.dropWhile (· == '0')).reverse

/-- So many whole units and a fraction of one with so many places. -/
def inUnit (nanoseconds places : Nat) (unit : String) : String :=
  let whole := nanoseconds / Nat.pow 10 places
  let fraction := nanoseconds % Nat.pow 10 places
  if fraction = 0 then toString whole ++ unit
  else toString whole ++ "." ++ String.ofList (decimals fraction places) ++ unit

/-- The duration in seconds, milliseconds, microseconds or nanoseconds. -/
def render (d : Duration) : String :=
  let n := d.nanoseconds
  if 1000000000 ≤ n then inUnit n 9 "s"
  else if 1000000 ≤ n then inUnit n 6 "ms"
  else if 1000 ≤ n then inUnit n 3 "µs"
  else inUnit n 0 "ns"

end Duration

end OperatorModes.Backend
