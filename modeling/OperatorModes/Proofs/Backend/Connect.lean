import Mathlib.Data.List.Forall2
import OperatorModes.Backend.Connect
import OperatorModes.Proofs.Occurrence

/-!
# How a run of attempts goes

After an attempt a run has its connection, or the time is up, or it pauses and goes on
(`connectFrom_cases`). So a run is a stretch of attempts that fail in time, and at most one attempt
after them, which ends it (`connectFrom_append`, `Concludes`). What it returns is read off that:

> `connect_returns_iff`: a run returns what its first attempt that does not fail in time makes of
> it, a connection or a timeout at that attempt's reading of the clock; it has made that attempt and
> the ones before it and no other, and what went wrong in them makes no difference.

None of this asks anything of the clock.
-/

namespace OperatorModes.Backend.Attempt

variable {κ : Type}

/-- No connection came of the attempt. -/
def Failed (a : Attempt κ) : Prop := ∃ cause, a.outcome = .error cause

/-- The attempt with another account of what went wrong in it. -/
def recount (account : Fault → Fault) (a : Attempt κ) : Attempt κ :=
  { a with outcome := a.outcome.mapError account }

end OperatorModes.Backend.Attempt

namespace OperatorModes.BackendConfig

open OperatorModes.Backend

variable {κ : Type} {config : BackendConfig} {a : Attempt κ}

/-! ## One attempt -/

/-- The attempt fails before the time is up, so that another one follows it. -/
def Retries (config : BackendConfig) (a : Attempt κ) : Prop :=
  a.Failed ∧ a.elapsed < config.timeout

/-- What a run returns whose last attempt this is: the connection, however late it is, or a timeout
when the time is up. -/
inductive Concludes (config : BackendConfig) (a : Attempt κ) : Except Fault κ → Prop where
  | connected {connection : κ} (h : a.outcome = .ok connection) :
    Concludes config a (.ok connection)
  | timedOut (hfailed : a.Failed) (hlate : config.timeout ≤ a.elapsed) :
    Concludes config a (.error (.timeout config.address a.elapsed))

/-- The pause after an attempt that fails in time: the interval, or the time that is left if that is
shorter. The time that is left is what is missing at the attempt's reading of the clock. -/
def PausesFor (config : BackendConfig) (a : Attempt κ) (pause : Duration) : Prop :=
  ∃ left, a.elapsed + left = config.timeout ∧ pause = config.interval.min left

theorem pause?_of_late {t : Duration} (h : config.timeout ≤ t) : config.pause? t = none :=
  if_pos h

theorem pause?_of_early {t : Duration} (h : t < config.timeout) :
    ∃ left, t + left = config.timeout ∧ config.pause? t = some (config.interval.min left) := by
  refine ⟨⟨config.timeout.nanoseconds - t.nanoseconds⟩, ?_, if_neg (Nat.not_le.mpr h)⟩
  exact congrArg Duration.mk (Nat.add_sub_cancel' (Nat.le_of_lt h))

theorem pausesFor_of_pause? {pause : Duration} (h : config.pause? a.elapsed = some pause) :
    config.PausesFor a pause := by
  by_cases hlate : config.timeout ≤ a.elapsed
  · rw [pause?_of_late hlate] at h
    cases h
  · obtain ⟨left, hleft, hsome⟩ := pause?_of_early (Nat.not_le.mp hlate)
    rw [hsome, Option.some.injEq] at h
    exact ⟨left, hleft, h.symm⟩

theorem PausesFor.le_interval {pause : Duration} (h : config.PausesFor a pause) :
    pause ≤ config.interval := by
  obtain ⟨left, -, rfl⟩ := h
  rw [Duration.le_iff, Duration.nanoseconds_min]
  exact Nat.min_le_left _ _

/-- A pause ends when the time is up at the latest. -/
theorem PausesFor.add_le {pause : Duration} (h : config.PausesFor a pause) :
    a.elapsed + pause ≤ config.timeout := by
  obtain ⟨left, hleft, rfl⟩ := h
  rw [← hleft, Duration.le_iff, Duration.nanoseconds_add, Duration.nanoseconds_add,
    Duration.nanoseconds_min]
  exact Nat.add_le_add_left (Nat.min_le_right _ _) _

/-- A pause that ends before the time is up is a whole interval. -/
theorem PausesFor.interval_le {pause : Duration} (h : config.PausesFor a pause)
    (hends : a.elapsed + pause < config.timeout) : config.interval ≤ pause := by
  obtain ⟨left, hleft, rfl⟩ := h
  rw [← hleft] at hends
  simp only [Duration.lt_iff, Duration.le_iff, Duration.nanoseconds_add,
    Duration.nanoseconds_min] at hends ⊢
  omega

theorem Concludes.not_retries {r : Except Fault κ} (h : config.Concludes a r) :
    ¬ config.Retries a := by
  intro hretries
  obtain ⟨⟨cause, hcause⟩, hearly⟩ := hretries
  cases h with
  | connected h =>
    rw [hcause] at h
    cases h
  | timedOut _ hlate => exact Nat.not_lt.mpr hlate hearly

theorem Concludes.unique {r r' : Except Fault κ} (h : config.Concludes a r)
    (h' : config.Concludes a r') : r = r' := by
  cases h with
  | connected hc =>
    cases h' with
    | connected hc' =>
      rw [hc] at hc'
      cases hc'
      rfl
    | timedOut hfailed =>
      obtain ⟨cause, hcause⟩ := hfailed
      rw [hc] at hcause
      cases hcause
  | timedOut hfailed =>
    cases h' with
    | connected hc =>
      obtain ⟨cause, hcause⟩ := hfailed
      rw [hc] at hcause
      cases hcause
    | timedOut => rfl

/-- What one attempt does to a run. -/
theorem connectFrom_cases (config : BackendConfig) (made : UInt32) (a : Attempt κ)
    (rest : List (Attempt κ)) :
    (∃ connection, a.outcome = .ok connection ∧
      config.connectFrom made (a :: rest) =
        { result := some (.ok connection), attempts := made + 1, addresses := [config.address],
          pauses := [], events := [.connected config.address (made + 1)] }) ∨
    (∃ cause, a.outcome = .error cause ∧ config.timeout ≤ a.elapsed ∧
      config.connectFrom made (a :: rest) =
        { result := some (.error (.timeout config.address a.elapsed)), attempts := made + 1,
          addresses := [config.address], pauses := [],
          events := [.givingUp config.address (made + 1) cause.message] }) ∨
    (∃ cause pause, a.outcome = .error cause ∧ a.elapsed < config.timeout ∧
      config.pause? a.elapsed = some pause ∧ config.PausesFor a pause ∧
      config.connectFrom made (a :: rest) =
        (config.connectFrom (made + 1) rest).after config.address pause
          (.retrying config.address (made + 1) cause.message)) := by
  cases houtcome : a.outcome with
  | ok connection =>
    refine Or.inl ⟨connection, rfl, ?_⟩
    simp only [connectFrom, houtcome]
  | error cause =>
    right
    by_cases hlate : config.timeout ≤ a.elapsed
    · refine Or.inl ⟨cause, rfl, hlate, ?_⟩
      simp only [connectFrom, houtcome, pause?_of_late hlate]
    · have hearly : a.elapsed < config.timeout := Nat.not_le.mp hlate
      obtain ⟨left, hleft, hpause⟩ := pause?_of_early hearly
      refine Or.inr ⟨cause, _, rfl, hearly, hpause, ⟨left, hleft, rfl⟩, ?_⟩
      simp only [connectFrom, houtcome, hpause]

/-- A run ends with its next attempt, or pauses after it and goes on. -/
theorem connectFrom_ends_or_goes_on (config : BackendConfig) (made : UInt32) (a : Attempt κ)
    (rest : List (Attempt κ)) :
    (∃ r event, config.Concludes a r ∧
      config.connectFrom made (a :: rest) =
        { result := some r, attempts := made + 1, addresses := [config.address], pauses := [],
          events := [event] }) ∨
    (∃ pause event, config.Retries a ∧ config.pause? a.elapsed = some pause ∧
      config.PausesFor a pause ∧
      config.connectFrom made (a :: rest) =
        (config.connectFrom (made + 1) rest).after config.address pause event) := by
  rcases config.connectFrom_cases made a rest with
    ⟨connection, hc, hrun⟩ | ⟨cause, hc, hlate, hrun⟩ |
      ⟨cause, pause, hc, hearly, hsome, hpause, hrun⟩
  · exact Or.inl ⟨_, _, .connected hc, hrun⟩
  · exact Or.inl ⟨_, _, .timedOut ⟨cause, hc⟩ hlate, hrun⟩
  · exact Or.inr ⟨pause, _, ⟨⟨cause, hc⟩, hearly⟩, hsome, hpause, hrun⟩

/-- An attempt that fails in time leaves the rest of the run to the attempts after it. -/
theorem connectFrom_of_retries (made : UInt32) (rest : List (Attempt κ)) (h : config.Retries a) :
    ∃ pause event, config.PausesFor a pause ∧
      config.connectFrom made (a :: rest) =
        (config.connectFrom (made + 1) rest).after config.address pause event := by
  rcases config.connectFrom_ends_or_goes_on made a rest with
    ⟨r, event, hr, -⟩ | ⟨pause, event, -, -, hpause, hrun⟩
  · exact absurd h hr.not_retries
  · exact ⟨pause, event, hpause, hrun⟩

/-- Any other attempt ends the run. -/
theorem connectFrom_of_concludes {r : Except Fault κ} (made : UInt32) (rest : List (Attempt κ))
    (h : config.Concludes a r) :
    ∃ event, config.connectFrom made (a :: rest) =
      { result := some r, attempts := made + 1, addresses := [config.address], pauses := [],
        events := [event] } := by
  rcases config.connectFrom_ends_or_goes_on made a rest with
    ⟨other, event, hother, hrun⟩ | ⟨pause, event, hretries, -⟩
  · rw [hother.unique h] at hrun
    exact ⟨event, hrun⟩
  · exact absurd hretries h.not_retries

theorem exists_concludes_of_not_retries (h : ¬ config.Retries a) : ∃ r, config.Concludes a r := by
  cases houtcome : a.outcome with
  | ok connection => exact ⟨_, .connected houtcome⟩
  | error cause =>
    have hfailed : a.Failed := ⟨cause, houtcome⟩
    exact ⟨_, .timedOut hfailed (Nat.not_lt.mp fun hearly => h ⟨hfailed, hearly⟩)⟩

/-! ## All attempts -/

theorem add_one_add_ofNat (made : UInt32) (n : Nat) :
    made + 1 + .ofNat n = made + .ofNat (n + 1) := by
  rw [Nat.add_comm n 1, UInt32.ofNat_add, UInt32.add_assoc, UInt32.ofNat_one]

/-- A stretch of attempts that fail in time adds to the run after it one address and one pause for
each of them, and changes nothing else. -/
theorem connectFrom_append (rest : List (Attempt κ)) :
    ∀ {before : List (Attempt κ)} (made : UInt32), (∀ a ∈ before, config.Retries a) →
      ∃ pauses events, List.Forall₂ config.PausesFor before pauses ∧
        config.connectFrom made (before ++ rest) =
          let later := config.connectFrom (made + .ofNat before.length) rest
          { later with
            addresses := List.replicate before.length config.address ++ later.addresses
            pauses := pauses ++ later.pauses
            events := events ++ later.events } := by
  intro before
  induction before with
  | nil =>
    intro made _
    refine ⟨[], [], .nil, ?_⟩
    simp
  | cons a before ih =>
    intro made hretries
    obtain ⟨ha, hbefore⟩ := List.forall_mem_cons.mp hretries
    obtain ⟨pause, event, hpause, hrun⟩ :=
      connectFrom_of_retries made (before ++ rest) ha
    obtain ⟨pauses, events, hpauses, hlater⟩ := ih (made + 1) hbefore
    refine ⟨pause :: pauses, event :: events, .cons hpause hpauses, ?_⟩
    rw [List.cons_append, hrun, hlater, add_one_add_ofNat]
    rfl

/-- While every attempt fails in time, a run does not end. -/
theorem result_eq_none_of_forall_retries {attempts : List (Attempt κ)} (made : UInt32)
    (h : ∀ a ∈ attempts, config.Retries a) : (config.connectFrom made attempts).result = none := by
  obtain ⟨pauses, events, -, hrun⟩ := connectFrom_append [] made h
  rw [List.append_nil] at hrun
  rw [hrun]
  rfl

/-- What went wrong in the attempts makes no difference to what a run returns. -/
theorem result_connectFrom_recount (config : BackendConfig) (account : Fault → Fault) :
    ∀ (made : UInt32) (attempts : List (Attempt κ)),
      (config.connectFrom made (attempts.map (Attempt.recount account))).result =
        (config.connectFrom made attempts).result := by
  intro made attempts
  induction attempts generalizing made with
  | nil => rfl
  | cons a rest ih =>
    cases houtcome : a.outcome with
    | ok connection =>
      simp only [List.map_cons, connectFrom, Attempt.recount, houtcome, Except.mapError]
    | error cause =>
      simp only [List.map_cons, connectFrom, Attempt.recount, houtcome, Except.mapError]
      cases config.pause? a.elapsed with
      | none => rfl
      | some pause => exact ih (made + 1)

/-- A stretch of attempts that fail in time and one that does not are a whole run. -/
theorem connect_of_concludes {before unused : List (Attempt κ)} {last : Attempt κ}
    {r : Except Fault κ} (hbefore : ∀ a ∈ before, config.Retries a)
    (hlast : config.Concludes last r) :
    (config.connect (before ++ last :: unused)).result = some r ∧
      (config.connect (before ++ last :: unused)).addresses =
        List.replicate (before.length + 1) config.address ∧
      List.Forall₂ config.PausesFor before (config.connect (before ++ last :: unused)).pauses := by
  obtain ⟨pauses, events, hpauses, hrun⟩ := connectFrom_append (last :: unused) 0 hbefore
  obtain ⟨event, hlater⟩ :=
    connectFrom_of_concludes (0 + .ofNat before.length) unused hlast
  rw [connect, hrun, hlater]
  refine ⟨rfl, ?_, ?_⟩
  · show _ ++ [config.address] = _
    rw [List.replicate_succ']
  · show List.Forall₂ _ _ (pauses ++ [])
    rw [List.append_nil]
    exact hpauses

/-- **What a run returns.** A run of attempts returns exactly if one of them does not fail in time.
The first such attempt is the last that is made. If it connects, late or not, that connection is
returned; if not, the time is up, and a timeout with the address and that reading of the clock is.
All attempts are made with the configured address. There is a pause after each but the last, and the
time that is left is taken only at readings that are below the limit. What the attempts themselves
say went wrong is never returned: nothing changes with it. -/
theorem connect_returns_iff (config : BackendConfig) (attempts : List (Attempt κ))
    (r : Except Fault κ) :
    ((config.connect attempts).result = some r ↔
      ∃ before last unused, attempts = before ++ last :: unused ∧
        (∀ a ∈ before, config.Retries a) ∧ config.Concludes last r ∧
        (config.connect attempts).addresses = List.replicate (before.length + 1) config.address ∧
        List.Forall₂ config.PausesFor before (config.connect attempts).pauses) ∧
    ∀ account : Fault → Fault,
      (config.connect (attempts.map (Attempt.recount account))).result =
        (config.connect attempts).result := by
  refine ⟨⟨fun hreturns => ?_, fun h => ?_⟩, fun account =>
    config.result_connectFrom_recount account 0 attempts⟩
  · by_cases hall : ∀ a ∈ attempts, config.Retries a
    · have hnone := result_eq_none_of_forall_retries 0 hall
      rw [connect, hnone] at hreturns
      cases hreturns
    · obtain ⟨a, ha⟩ := Classical.not_forall.mp hall
      obtain ⟨hmem, hends⟩ := Classical.not_imp.mp ha
      obtain ⟨last, before, unused, rfl, hlast, hbefore⟩ :=
        exists_isFirst_of_mem (P := fun a => ¬ config.Retries a) hends hmem
      have hretries : ∀ a ∈ before, config.Retries a := fun a ha =>
        Classical.not_not.mp (hbefore a ha)
      obtain ⟨other, hother⟩ := exists_concludes_of_not_retries hlast
      obtain ⟨hresult, haddresses, hpauses⟩ := connect_of_concludes hretries hother
      rw [hresult, Option.some.injEq] at hreturns
      exact ⟨before, last, unused, rfl, hretries, hreturns ▸ hother, haddresses, hpauses⟩
  · obtain ⟨before, last, unused, rfl, hretries, hlast, -⟩ := h
    exact (connect_of_concludes hretries hlast).1

/-- An attempt that connects late counts, here half a second after a limit of ten milliseconds. -/
example : (({ connectTimeout := 10 } : BackendConfig).connect
    [{ outcome := .error (.connection "refused"), elapsed := .ofMilliseconds 3 },
      { outcome := .ok "c", elapsed := .ofMilliseconds 510 }]).result = some (.ok "c") := rfl

end OperatorModes.BackendConfig
