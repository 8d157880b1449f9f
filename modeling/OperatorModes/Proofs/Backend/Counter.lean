import OperatorModes.Document.Config
import OperatorModes.Proofs.Backend.Clock

/-!
# The counter of a run of attempts

The attempts of a run are counted in 32 bits, and a run logs the counter with each of them. The
counter is the number of attempts made as long as that number fits (`counted_iff`). Whether it
always fits is a matter of the configuration, in which any interval and any limit may stand:

> `forall_counted_iff`: no run makes more attempts than its counter can count exactly if the limit
> is at most `2 ^ 32 - 2` intervals.

Without an interval a run that is refused at once does not get on in time, so any number of attempts
is possible (`not_counted_unpaused`).
-/

namespace OperatorModes

/-- The number of attempts that an event gives. -/
def Event.attempts? : Event → Option Nat
  | retrying _ attempts _ => some attempts.toNat
  | givingUp _ attempts _ => some attempts.toNat
  | connected _ attempts => some attempts.toNat
  | _ => none

end OperatorModes

namespace OperatorModes.Backend.ConnectRun

variable {κ : Type}

/-- The run counts its attempts rightly: what it ends with is the number of attempts made, and what
each event in the log gives is the number made until then. -/
structure Counted (run : ConnectRun κ) : Prop where
  attempts : run.attempts.toNat = run.addresses.length
  log : run.events.map Event.attempts? =
    (List.range run.addresses.length).map fun i => some (i + 1)

end OperatorModes.Backend.ConnectRun

namespace OperatorModes.BackendConfig

open OperatorModes.Backend

variable {κ : Type} {config : BackendConfig} {attempts : List (Attempt κ)}

/-! ## The counter -/

theorem attempts_connectFrom (config : BackendConfig) (made : UInt32)
    (attempts : List (Attempt κ)) :
    (config.connectFrom made attempts).attempts =
      made + .ofNat (config.connectFrom made attempts).addresses.length := by
  induction attempts generalizing made with
  | nil => exact (UInt32.add_zero made).symm
  | cons a rest ih =>
    rcases config.connectFrom_ends_or_goes_on made a rest with
      ⟨r, event, -, hrun⟩ | ⟨pause, event, -, -, -, hrun⟩
    · rw [hrun]
      rfl
    · rw [hrun]
      show (config.connectFrom (made + 1) rest).attempts = made + .ofNat (_ + 1)
      rw [ih (made + 1), add_one_add_ofNat]

/-- Each event gives the counter when it is written. -/
theorem map_attempts?_connectFrom (config : BackendConfig) (made : UInt32)
    (attempts : List (Attempt κ)) :
    (config.connectFrom made attempts).events.map Event.attempts? =
      (List.range (config.connectFrom made attempts).addresses.length).map
        fun i => some (made + .ofNat (i + 1)).toNat := by
  induction attempts generalizing made with
  | nil => rfl
  | cons a rest ih =>
    rcases config.connectFrom_cases made a rest with
      ⟨connection, -, hrun⟩ | ⟨cause, -, -, hrun⟩ | ⟨cause, pause, -, -, -, -, hrun⟩
    · rw [hrun]
      rfl
    · rw [hrun]
      rfl
    · rw [hrun]
      show _ :: (config.connectFrom (made + 1) rest).events.map Event.attempts? =
        (List.range (_ + 1)).map _
      rw [ih (made + 1), List.range_succ_eq_map, List.map_cons, List.map_map]
      congr 1
      exact List.map_congr_left fun i _ =>
        congrArg (fun counter : UInt32 => some counter.toNat) (add_one_add_ofNat made (i + 1))

/-- The counter is right as long as the number of attempts fits into it. -/
theorem counted_iff : (config.connect attempts).Counted ↔
    (config.connect attempts).addresses.length < 2 ^ 32 := by
  have hattempts := config.attempts_connectFrom 0 attempts
  have hlog := config.map_attempts?_connectFrom 0 attempts
  rw [← connect, UInt32.zero_add] at hattempts
  rw [← connect] at hlog
  constructor
  · intro h
    rw [← h.attempts]
    exact UInt32.toNat_lt _
  · intro hlt
    refine ⟨?_, ?_⟩
    · rw [hattempts, UInt32.toNat_ofNat_of_lt' hlt]
    · rw [hlog]
      refine List.map_congr_left fun i hi => congrArg some ?_
      have hfits : i + 1 < UInt32.size := Nat.lt_of_le_of_lt (List.mem_range.mp hi) hlt
      rw [UInt32.zero_add, UInt32.toNat_ofNat_of_lt' hfits]

/-! ## Refused attempts -/

theorem promptly_concat (config : BackendConfig) (outcomes : List (Except Fault κ))
    (outcome : Except Fault κ) :
    ∃ last : Attempt κ, last.outcome = outcome ∧
      config.promptly (outcomes ++ [outcome]) = config.promptly outcomes ++ [last] :=
  ⟨_, rfl, List.mapIdx_concat⟩

/-- Refused attempts that take no time are repeated as long as fewer intervals have passed than the
limit allows. -/
theorem retries_promptly {n : Nat} (cause : Fault)
    (h : ∀ i < n, i * config.retryInterval.toNat < config.connectTimeout.toNat) :
    ∀ a ∈ config.promptly (κ := κ) (List.replicate n (.error cause)), config.Retries a := by
  intro a ha
  obtain ⟨i, hi, rfl⟩ := List.mem_mapIdx.mp ha
  refine ⟨⟨cause, by simp only [List.getElem_replicate]⟩, ?_⟩
  have hlt := h i (by rwa [List.length_replicate] at hi)
  have hassoc : i * (1000000 * config.retryInterval.toNat) =
    1000000 * (i * config.retryInterval.toNat) := Nat.mul_left_comm ..
  simp only [Duration.lt_iff, Duration.nanoseconds_min, interval, timeout,
    Duration.nanoseconds_ofMilliseconds]
  omega

/-- Attempts that fail in time are all made, and so is the one after them. -/
theorem lt_length_addresses {before unused : List (Attempt κ)} {a : Attempt κ} (made : UInt32)
    (h : ∀ b ∈ before, config.Retries b) :
    before.length < (config.connectFrom made (before ++ a :: unused)).addresses.length := by
  obtain ⟨pauses, events, -, hrun⟩ := connectFrom_append (a :: unused) made h
  rw [hrun]
  show _ < (List.replicate _ _ ++
    (config.connectFrom (made + UInt32.ofNat before.length) (a :: unused)).addresses).length
  rw [List.length_append, List.length_replicate]
  refine Nat.lt_add_of_pos_right ?_
  rcases config.connectFrom_ends_or_goes_on (made + .ofNat before.length) a unused with
    ⟨r, event, -, hlater⟩ | ⟨pause, event, -, -, -, hlater⟩
  · rw [hlater]
    exact Nat.zero_lt_one
  · rw [hlater]
    exact Nat.succ_pos _

theorem lt_length_addresses_promptly {n : Nat} (cause : Fault) (outcome : Except Fault κ)
    (h : ∀ i < n, i * config.retryInterval.toNat < config.connectTimeout.toNat) :
    n < (config.connect (config.promptly
      (List.replicate n (.error cause) ++ [outcome]))).addresses.length := by
  obtain ⟨last, -, hattempts⟩ :=
    config.promptly_concat (List.replicate n (.error cause)) outcome
  have hmany : _ < (config.connectFrom 0 (_ ++ [last])).addresses.length :=
    lt_length_addresses 0 (retries_promptly cause h)
  rw [← hattempts, promptly, List.length_mapIdx, List.length_replicate] at hmany
  exact hmany

/-- **Whether the counter is right.** A configuration lets no run make more attempts than its
counter can count, whatever comes of them and on whatever clock, exactly if the limit is at most
`2 ^ 32 - 2` intervals. -/
theorem forall_counted_iff (config : BackendConfig) (κ : Type) :
    (∀ attempts : List (Attempt κ), config.Paced attempts → (config.connect attempts).Counted) ↔
      config.connectTimeout.toNat ≤ (2 ^ 32 - 2) * config.retryInterval.toNat := by
  constructor
  · intro h
    by_contra hlong
    -- All attempts are refused at once, so that only pauses take time.
    have hspin : ∀ i < 2 ^ 32 - 1,
        i * config.retryInterval.toNat < config.connectTimeout.toNat := fun i hi =>
      Nat.lt_of_le_of_lt (Nat.mul_le_mul_right _ (by omega)) (Nat.not_le.mp hlong)
    have hmany := lt_length_addresses_promptly (κ := κ) (.connection "")
      (.error (.connection "")) hspin
    exact absurd (counted_iff.mp (h _ (config.paced_promptly _)))
      (Nat.not_lt.mpr (Nat.le_of_pred_lt hmany))
  · intro hshort attempts hpaced
    have hlength := config.length_addresses 0 attempts
    rw [← connect] at hlength
    refine counted_iff.mpr ?_
    cases hn : (config.connect attempts).pauses.length with
    | zero => split at hlength <;> omega
    | succ n =>
      have hlt := mul_retryInterval_lt hpaced hn
      have hfew : n < 2 ^ 32 - 2 := by
        by_contra hmany
        have hlong := Nat.mul_le_mul_right config.retryInterval.toNat (Nat.not_lt.mp hmany)
        omega
      split at hlength <;> omega

/-- A connection after so many refused attempts is logged with what the counter makes of their
number. -/
theorem connect_promptly_connected {n : Nat} (cause : Fault) (connection : κ)
    (h : ∀ i < n, i * config.retryInterval.toNat < config.connectTimeout.toNat) :
    let run := config.connect
      (config.promptly (List.replicate n (.error cause) ++ [.ok connection]))
    run.result = some (.ok connection) ∧ run.addresses.length = n + 1 ∧
      run.events.getLast? = some (.connected config.address (.ofNat (n + 1))) := by
  obtain ⟨last, hlast, hattempts⟩ :=
    config.promptly_concat (List.replicate n (.error cause)) (.ok connection)
  obtain ⟨pauses, events, -, hrun⟩ := connectFrom_append [last] 0 (retries_promptly cause h)
  rw [promptly, List.length_mapIdx, List.length_replicate, UInt32.zero_add, ← promptly] at hrun
  rcases config.connectFrom_cases (.ofNat n) last [] with
    ⟨c, hc, hlater⟩ | ⟨c, hc, -⟩ | ⟨c, pause, hc, -⟩
  · rw [hlast] at hc
    cases hc
    rw [hattempts, connect, hrun, hlater]
    refine ⟨rfl, ?_, ?_⟩
    · show (List.replicate n config.address ++ [config.address]).length = n + 1
      rw [List.length_append, List.length_replicate, List.length_singleton]
    · show (events ++ [_]).getLast? = _
      rw [List.getLast?_concat, UInt32.ofNat_add, UInt32.ofNat_one]
  · rw [hlast] at hc
    cases hc
  · rw [hlast] at hc
    cases hc

/-- A run that does not pause can be refused so often that the counter starts again from zero: the
connection that the attempt with the number `2 ^ 32` makes is logged as that of attempt `0`. -/
theorem not_counted_unpaused :
    let config : BackendConfig := { retryInterval := 0, connectTimeout := 18446744073709551615 }
    let attempts : List (Attempt Nat) := config.promptly
      (List.replicate 4294967295 (.error (.connection "refused")) ++ [.ok 4294967296])
    Config.ofDocument ("\x7b\"backend\":\x7b\"retry_interval_ms\":0,"
        ++ "\"connect_timeout_ms\":18446744073709551615\x7d\x7d") = .ok { backend := config } ∧
      config.Paced attempts ∧ (config.connect attempts).result = some (.ok 4294967296) ∧
      (config.connect attempts).addresses.length = 4294967296 ∧
      (config.connect attempts).events.getLast? = some (.connected config.address 0) ∧
      ¬ (config.connect attempts).Counted := by
  intro config attempts
  have hspin : ∀ i < 4294967295,
      i * config.retryInterval.toNat < config.connectTimeout.toNat := fun i _ => by
    show i * 0 < 18446744073709551615
    omega
  obtain ⟨hresult, hlength, hlast⟩ :=
    connect_promptly_connected (.connection "refused") 4294967296 hspin
  refine ⟨by rfl, config.paced_promptly _, hresult, hlength, hlast, fun hcounted => ?_⟩
  have hfits := counted_iff.mp hcounted
  rw [hlength] at hfits
  exact absurd hfits (by decide)

end OperatorModes.BackendConfig
