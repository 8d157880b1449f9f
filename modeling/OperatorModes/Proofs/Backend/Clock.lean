import Mathlib.Algebra.Order.Floor.Div
import Mathlib.Data.List.Chain
import OperatorModes.Proofs.Backend.Connect

/-!
# How long a run of attempts goes on

A run is bounded only by the clock. `Paced` says what is asked of it: it does not go back, and a
pause passes on it; how long the attempts themselves take is left open. Then a pause that another
pause follows was not cut short, so each pause but the last uses up an interval
(`add_mul_interval_lt`), and the last one ends when the time is up at the latest (`add_paused_le`).

> `connect_bounded`: a run makes at most one attempt more than intervals begin before the time is
> up, then has ended, and has paused no longer than the limit.
-/

namespace OperatorModes.Backend.ConnectRun

variable {κ : Type}

/-- All pauses of a run together. -/
def paused (run : ConnectRun κ) : Duration := run.pauses.foldr (· + ·) .zero

end OperatorModes.Backend.ConnectRun

namespace OperatorModes.BackendConfig

open OperatorModes.Backend

variable {κ : Type} {config : BackendConfig} {attempts : List (Attempt κ)}

/-! ## Clocks -/

/-- The clock does not go back from one attempt to the next, and if there is a pause between them,
it has passed on the clock. -/
def Precedes (config : BackendConfig) (a b : Attempt κ) : Prop :=
  a.elapsed ≤ b.elapsed ∧
    (a.Failed → ∀ pause, config.pause? a.elapsed = some pause → a.elapsed + pause ≤ b.elapsed)

/-- The attempts are read off a clock that does not go back and on which pauses pass. -/
def Paced (config : BackendConfig) (attempts : List (Attempt κ)) : Prop :=
  attempts.IsChain config.Precedes

/-- The attempts are made no earlier than at a time. -/
def StartsAt (t : Duration) (attempts : List (Attempt κ)) : Prop :=
  ∀ a ∈ attempts.head?, t ≤ a.elapsed

theorem startsAt_of_precedes {a : Attempt κ} {rest : List (Attempt κ)} {pause : Duration}
    (hpaced : config.Paced (a :: rest)) (hfailed : a.Failed)
    (hpause : config.pause? a.elapsed = some pause) : StartsAt (a.elapsed + pause) rest :=
  fun b hb => ((List.isChain_cons.mp hpaced).1 b hb).2 hfailed pause hpause

/-- The outcomes of attempts as a run meets them that take no time, so that only pauses do: before
the limit one interval has passed for each attempt made before. -/
def promptly (config : BackendConfig) (outcomes : List (Except Fault κ)) : List (Attempt κ) :=
  outcomes.mapIdx fun i outcome =>
    { outcome, elapsed := Duration.min ⟨i * config.interval.nanoseconds⟩ config.timeout }

/-- Attempts that take no time are on such a clock. -/
theorem paced_promptly (config : BackendConfig) (outcomes : List (Except Fault κ)) :
    config.Paced (config.promptly outcomes) := by
  refine List.isChain_iff_getElem.mpr fun i hi => ?_
  have hstep : (i + 1) * config.interval.nanoseconds =
      i * config.interval.nanoseconds + config.interval.nanoseconds := Nat.succ_mul ..
  refine ⟨?_, fun _ pause hpause => ?_⟩
  · simp only [promptly, List.getElem_mapIdx, Duration.le_iff, Duration.nanoseconds_min]
    omega
  · have hpauses := pausesFor_of_pause? hpause
    have hwhole := hpauses.le_interval
    have hends := hpauses.add_le
    simp only [promptly, List.getElem_mapIdx, Duration.le_iff, Duration.nanoseconds_add,
      Duration.nanoseconds_min] at hwhole hends ⊢
    omega

/-! ## Attempts and pauses -/

/-- There is a pause between any two attempts in a row, and one after the last while the run has not
ended. -/
theorem length_addresses (config : BackendConfig) (made : UInt32) (attempts : List (Attempt κ)) :
    (config.connectFrom made attempts).addresses.length =
      (config.connectFrom made attempts).pauses.length +
        if (config.connectFrom made attempts).result.isSome then 1 else 0 := by
  induction attempts generalizing made with
  | nil => rfl
  | cons a rest ih =>
    rcases config.connectFrom_ends_or_goes_on made a rest with
      ⟨r, event, -, hrun⟩ | ⟨pause, event, -, -, -, hrun⟩
    · rw [hrun]
      rfl
    · rw [hrun]
      show _ + 1 = _ + 1 + _
      rw [ih (made + 1), Nat.add_right_comm]
      rfl

/-- A run that has not ended has made every attempt. -/
theorem length_addresses_of_none {made : UInt32}
    (h : (config.connectFrom made attempts).result = none) :
    (config.connectFrom made attempts).addresses.length = attempts.length := by
  induction attempts generalizing made with
  | nil => rfl
  | cons a rest ih =>
    rcases config.connectFrom_ends_or_goes_on made a rest with
      ⟨r, event, -, hrun⟩ | ⟨pause, event, -, -, -, hrun⟩
    · rw [hrun] at h
      cases h
    · rw [hrun] at h ⊢
      exact congrArg (· + 1) (ih h)

/-- Every pause but the last is a whole interval, so by the number of pauses it is known how much of
the time is up before the last of them. -/
theorem add_mul_interval_lt {n : Nat} {t : Duration} (made : UInt32)
    (hpaced : config.Paced attempts) (ht : StartsAt t attempts)
    (hn : (config.connectFrom made attempts).pauses.length = n + 1) :
    t.nanoseconds + n * config.interval.nanoseconds < config.timeout.nanoseconds := by
  induction attempts generalizing made n t with
  | nil => cases hn
  | cons a rest ih =>
    have hta : t.nanoseconds ≤ a.elapsed.nanoseconds := ht a rfl
    rcases config.connectFrom_ends_or_goes_on made a rest with
      ⟨r, event, -, hrun⟩ | ⟨pause, event, ⟨hfailed, hearly⟩, hsome, hpause, hrun⟩
    · rw [hrun] at hn
      cases hn
    · rw [hrun] at hn
      have hlater : (config.connectFrom (made + 1) rest).pauses.length = n := Nat.succ.inj hn
      have hlt : a.elapsed.nanoseconds < config.timeout.nanoseconds := hearly
      cases n with
      | zero => omega
      | succ n =>
        have hnext := ih (made + 1) (List.isChain_cons.mp hpaced).2
          (startsAt_of_precedes hpaced hfailed hsome) hlater
        -- There is an attempt after this pause, so it was not cut short.
        have hwhole : config.interval.nanoseconds ≤ pause.nanoseconds :=
          hpause.interval_le (Nat.lt_of_le_of_lt (Nat.le_add_right _ _) hnext)
        rw [Duration.nanoseconds_add] at hnext
        rw [Nat.succ_mul]
        omega

/-- The pauses of a run end before the time is up. -/
theorem add_paused_le {t : Duration} (made : UInt32) (hpaced : config.Paced attempts)
    (ht : StartsAt t attempts) (hstart : t ≤ config.timeout) :
    t + (config.connectFrom made attempts).paused ≤ config.timeout := by
  induction attempts generalizing made t with
  | nil => exact hstart
  | cons a rest ih =>
    have hta : t.nanoseconds ≤ a.elapsed.nanoseconds := ht a rfl
    rcases config.connectFrom_ends_or_goes_on made a rest with
      ⟨r, event, -, hrun⟩ | ⟨pause, event, ⟨hfailed, -⟩, hsome, hpause, hrun⟩
    · rw [hrun]
      exact hstart
    · have hnext := ih (made + 1) (List.isChain_cons.mp hpaced).2
        (startsAt_of_precedes hpaced hfailed hsome) hpause.add_le
      rw [hrun]
      show t + (pause + (config.connectFrom (made + 1) rest).paused) ≤ _
      simp only [Duration.nanoseconds_add, Duration.le_iff] at hnext ⊢
      omega

/-! ## How many attempts -/

/-- Before the last pause of a run, the intervals of the pauses before it have not used up the
limit. -/
theorem mul_retryInterval_lt {n : Nat} (hpaced : config.Paced attempts)
    (hn : (config.connect attempts).pauses.length = n + 1) :
    n * config.retryInterval.toNat < config.connectTimeout.toNat := by
  have hlt := add_mul_interval_lt 0 hpaced (t := .zero) (fun _ _ => Nat.zero_le _) hn
  have hscale : n * (1000000 * config.retryInterval.toNat) =
    1000000 * (n * config.retryInterval.toNat) := Nat.mul_left_comm ..
  simp only [interval, timeout, Duration.nanoseconds_ofMilliseconds,
    Duration.nanoseconds_zero] at hlt
  omega

/-- There are at most as many pauses as intervals begin before the time is up. -/
theorem length_pauses_le (hinterval : 1 ≤ config.retryInterval.toNat)
    (hpaced : config.Paced attempts) :
    (config.connect attempts).pauses.length ≤
      config.connectTimeout.toNat ⌈/⌉ config.retryInterval.toNat := by
  cases hn : (config.connect attempts).pauses.length with
  | zero => exact Nat.zero_le _
  | succ n =>
    have hlt := mul_retryInterval_lt hpaced hn
    by_contra hfew
    have hceil := (ceilDiv_le_iff_le_mul hinterval).mp (Nat.le_of_lt_succ (Nat.not_le.mp hfew))
    rw [Nat.mul_comm] at hceil
    exact absurd hlt (Nat.not_lt.mpr hceil)

/-- **A run ends.** If the interval is at least a millisecond and pauses pass on the clock, a run
makes at most one attempt more than intervals begin before the time is up, whatever comes of them,
and has ended when it has made that many. All its pauses together are no longer than the limit. -/
theorem connect_bounded (config : BackendConfig) (attempts : List (Attempt κ))
    (hinterval : 1 ≤ config.retryInterval.toNat) (hpaced : config.Paced attempts) :
    (config.connect attempts).addresses.length ≤
        config.connectTimeout.toNat ⌈/⌉ config.retryInterval.toNat + 1 ∧
      (config.connectTimeout.toNat ⌈/⌉ config.retryInterval.toNat + 1 ≤ attempts.length →
        ∃ r, (config.connect attempts).result = some r) ∧
      (config.connect attempts).paused ≤ config.timeout := by
  have hpauses := length_pauses_le hinterval hpaced
  have hlength := config.length_addresses 0 attempts
  rw [← connect] at hlength
  refine ⟨?_, fun hmany => ?_, ?_⟩
  · split at hlength <;> omega
  · cases hresult : (config.connect attempts).result with
    | some r => exact ⟨r, rfl⟩
    | none =>
      -- Without a result every attempt is followed by a pause, which is more than there are.
      have hall : (config.connect attempts).addresses.length = attempts.length :=
        length_addresses_of_none hresult
      rw [hresult, Option.isSome_none, if_neg Bool.false_ne_true] at hlength
      omega
  · have hpaused := add_paused_le 0 hpaced (t := .zero) (fun _ _ => Nat.zero_le _) (Nat.zero_le _)
    rw [← connect] at hpaused
    simp only [Duration.nanoseconds_add, Duration.nanoseconds_zero, Duration.le_iff] at hpaused ⊢
    omega

/-- With pauses of four milliseconds and a limit of ten, four attempts that are refused at once use
up both bounds: the last pause is cut to two. -/
theorem connect_bounded_tight :
    let config : BackendConfig := { retryInterval := 4, connectTimeout := 10 }
    let attempts : List (Attempt Unit) :=
      config.promptly (List.replicate 4 (.error (.connection "refused")))
    1 ≤ config.retryInterval.toNat ∧ config.Paced attempts ∧
      (config.connect attempts).addresses.length = 10 ⌈/⌉ 4 + 1 ∧
      (∃ r, (config.connect attempts).result = some r) ∧
      (config.connect attempts).paused = config.timeout := by
  intro config attempts
  have hinterval : 1 ≤ config.retryInterval.toNat := by decide
  have hpaced : config.Paced attempts := config.paced_promptly _
  obtain ⟨-, hends, -⟩ := connect_bounded config attempts hinterval hpaced
  exact ⟨hinterval, hpaced, by decide, hends (by decide), by decide⟩

end OperatorModes.BackendConfig
