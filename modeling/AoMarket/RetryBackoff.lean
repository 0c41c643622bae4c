import AoMarket.AodbBackoffRepo

/-!
The doubling delay over a run of failed lookups of one id. The product is a
`timedelta` before the cap applies, so it stays representable for 35 failures
and never again: the counter stops at 35 and every later attempt raises.
-/

namespace AoMarket.RetryBackoff

open Coroutine Relational Models Database PyNumber Environment AodbBackoffRepo

/-- The delay the repository is for: 2^(n-1) hours, at most seven days. -/
def cappedDelay (n : ℕ) : ℤ := min (baseDelay * 2 ^ (n - 1)) maxDelay

/-- 2^34 hours are a timedelta, 2^35 are none. -/
theorem timedelta_hours_eq_some (k : ℕ) :
    timedelta (baseDelay * 2 ^ k) = some (baseDelay * 2 ^ k) ↔ k ≤ 34 := by
  have hpos : (0 : ℤ) < 2 ^ k := by positivity
  unfold timedelta baseDelay usPerDay
  constructor
  · intro h
    by_contra hk
    have hbig : (2 : ℤ) ^ 35 ≤ 2 ^ k := pow_le_pow_right₀ (by norm_num) (by omega)
    have hover : ¬ |3600000000 * (2 : ℤ) ^ k / 86400000000| ≤ 999999999 := by
      rw [abs_of_nonneg (by omega)]
      omega
    rw [if_neg hover] at h
    cases h
  · intro hk
    have hsmall : (2 : ℤ) ^ k ≤ 2 ^ 34 := pow_le_pow_right₀ (by norm_num) hk
    rw [if_pos]
    rw [abs_of_nonneg (by omega)]
    omega

theorem nextRetryAt_small {n : ℕ} (hn : n ≤ 35) (now : ℤ) :
    nextRetryAt n now = some (now + cappedDelay n) := by
  have hsome := (timedelta_hours_eq_some (n - 1)).mpr (by omega)
  unfold nextRetryAt
  rw [hsome]
  rfl

/-- From the 36th failure on the delay is not computed: the product overflows before the cap
is applied. -/
theorem nextRetryAt_large {n : ℕ} (hn : 36 ≤ n) (now : ℤ) : nextRetryAt n now = none := by
  have hnone : timedelta (baseDelay * 2 ^ (n - 1)) = none := by
    by_contra hne
    have hcases : timedelta (baseDelay * 2 ^ (n - 1)) = none ∨
        timedelta (baseDelay * 2 ^ (n - 1)) = some (baseDelay * 2 ^ (n - 1)) := by
      unfold timedelta
      split
      · exact Or.inr rfl
      · exact Or.inl rfl
    have := (timedelta_hours_eq_some (n - 1)).mp (hcases.resolve_left hne)
    omega
  unfold nextRetryAt
  rw [hnone]
  rfl

/-- Failures of one id in a row, the `i`-th call starting in `ws i`: the first finds no
row, the server is up during the calls, and between two of them the row is left alone. -/
structure FailsInARow (env : Env) (aoid : ℤ) (ws : ℕ → World) : Prop where
  fresh : lookup AodbLookupBackoff.aoid aoid (ws 0).db.lookupBackoff = none
  up : ∀ i t, (ws i).tick ≤ t → t ≤ (ws i).tick + 2 → env.dbFault t = none
  kept : ∀ i, lookup AodbLookupBackoff.aoid aoid (ws (i + 1)).db.lookupBackoff =
    lookup AodbLookupBackoff.aoid aoid ((recordFailure env aoid).run (ws i)).2.db.lookupBackoff

/-- The call started in `w` succeeds and stores `n` failures and the capped delay. -/
def Records (env : Env) (aoid : ℤ) (w : World) (n : ℕ) : Prop :=
  ∃ w', (recordFailure env aoid).run w = (.ok (), w') ∧
    lookup AodbLookupBackoff.aoid aoid w'.db.lookupBackoff =
      some { aoid := aoid, failureCount := n, lastAttemptedAt := env.clock w.tick,
             nextRetryAt := env.clock w.tick + cappedDelay n }

section Runs
variable {env : Env} {aoid : ℤ} {ws : ℕ → World}

theorem records_small {w : World}
    (hup : ∀ t, w.tick ≤ t → t ≤ w.tick + 2 → env.dbFault t = none)
    (haoid : int8 aoid = .ok ()) (hcount : failures w.db aoid + 1 ≤ 35) :
    Records env aoid w (failures w.db aoid + 1) := by
  have hretry := nextRetryAt_small hcount (env.clock w.tick)
  refine ⟨_, run_recordFailure_ok hup haoid (by omega) hretry, ?_⟩
  exact lookup_upsertBackoff w.db
    { aoid := aoid, failureCount := failures w.db aoid + 1, lastAttemptedAt := env.clock w.tick,
      nextRetryAt := env.clock w.tick + cappedDelay (failures w.db aoid + 1) }

/-- The counter follows the run up to 35 and stays there. -/
theorem failures_in_a_row (hrun : FailsInARow env aoid ws) (haoid : int8 aoid = .ok ()) (i : ℕ) :
    failures (ws i).db aoid = min i 35 := by
  induction i with
  | zero => simp [failures, hrun.fresh]
  | succ i ih =>
    by_cases hi : i < 35
    · have hcount : failures (ws i).db aoid + 1 = i + 1 := by omega
      obtain ⟨w', hok, hrow⟩ := records_small (hrun.up i) haoid (by omega)
      unfold failures at hrow hcount ⊢
      rw [hrun.kept i, hok, hrow]
      simp only [Option.map_some, Option.getD_some]
      omega
    · have hretry : nextRetryAt (failures (ws i).db aoid + 1) (env.clock (ws i).tick) = none :=
        nextRetryAt_large (by omega) _
      have hraise := run_recordFailure_overflow (hrun.up i _ (by omega) (by omega)) haoid hretry
      have hsame : failures (ws (i + 1)).db aoid = failures (ws i).db aoid := by
        unfold failures
        rw [hrun.kept i, hraise]
      omega

theorem not_records_of_refused {w : World} (haoid : int8 aoid ≠ .ok ()) (n : ℕ) :
    ¬ Records env aoid w n := by
  rintro ⟨w', hok, _⟩
  unfold recordFailure at hok
  obtain ⟨now, w₁, _, hrest⟩ := Coro.run_bind_eq_ok hok
  obtain ⟨row, w₂, hget, _⟩ := Coro.run_bind_eq_ok hrest
  obtain ⟨hread, _⟩ := run_query_eq_ok hget
  obtain ⟨u, hint, _⟩ := except_bind_eq_ok.mp hread
  exact haoid hint

/-- The `n`-th failure in a row is recorded, with its capped delay, exactly for the ids
a row can hold and up to the 35th; the delay itself is defined exactly up to there. -/
theorem nth_failure_recorded (hrun : FailsInARow env aoid ws) {n : ℕ} (hn : 1 ≤ n) :
    (Records env aoid (ws (n - 1)) n ↔ n ≤ 35 ∧ -2 ^ 63 ≤ aoid ∧ aoid < 2 ^ 63) ∧
      ∀ now, nextRetryAt n now = some (now + cappedDelay n) ↔ n ≤ 35 := by
  have hrange : int8 aoid = .ok () ↔ -2 ^ 63 ≤ aoid ∧ aoid < 2 ^ 63 := by
    unfold int8
    split
    · next h => exact iff_of_true rfl h
    · next h => exact iff_of_false (by simp) h
  constructor
  · rw [← hrange]
    by_cases haoid : int8 aoid = .ok ()
    · have hcount := failures_in_a_row hrun haoid (n - 1)
      constructor
      · rintro ⟨w', hok, _⟩
        refine ⟨?_, haoid⟩
        by_contra hlarge
        have hretry := nextRetryAt_large (n := failures (ws (n - 1)).db aoid + 1) (by omega)
          (env.clock (ws (n - 1)).tick)
        have hraise :=
          run_recordFailure_overflow (hrun.up (n - 1) _ (by omega) (by omega)) haoid hretry
        rw [hraise] at hok
        cases hok
      · intro h
        have hsucc : failures (ws (n - 1)).db aoid + 1 = n := by omega
        have hrec := records_small (hrun.up (n - 1)) haoid (by omega)
        rwa [hsucc] at hrec
    · exact iff_of_false (not_records_of_refused haoid n) fun h => haoid h.2
  · intro now
    constructor
    · intro hsome
      by_contra hlarge
      rw [nextRetryAt_large (by omega)] at hsome
      cases hsome
    · intro hsmall
      exact nextRetryAt_small hsmall now

end Runs

def steadyFailures : ℕ → World
  | 0 => { db := .empty }
  | i + 1 => ((recordFailure .calm 1).run (steadyFailures i)).2

theorem steadyFailures_in_a_row : FailsInARow .calm 1 steadyFailures where
  fresh := rfl
  up _ _ _ _ := rfl
  kept _ := rfl

theorem steady_failure_35_recorded :
    (Records .calm 1 (steadyFailures (35 - 1)) 35 ↔
      35 ≤ 35 ∧ (-2 ^ 63 : ℤ) ≤ 1 ∧ (1 : ℤ) < 2 ^ 63) ∧
      ∀ now, nextRetryAt 35 now = some (now + cappedDelay 35) ↔ 35 ≤ 35 :=
  nth_failure_recorded steadyFailures_in_a_row (by omega)

/-- The 36th failure in a row raises, and the counter never moves again. -/
theorem steady_failure_36_raises :
    FailsInARow .calm 1 steadyFailures ∧ ¬ Records .calm 1 (steadyFailures 35) 36 ∧
      nextRetryAt 36 0 = none := by
  refine ⟨steadyFailures_in_a_row, ?_, nextRetryAt_large (by omega) 0⟩
  rintro ⟨w', hok, _⟩
  have hcount := failures_in_a_row steadyFailures_in_a_row rfl 35
  have hretry : nextRetryAt (failures (steadyFailures 35).db 1 + 1)
      (Env.calm.clock (steadyFailures 35).tick) = none :=
    nextRetryAt_large (by omega) _
  have hraise := run_recordFailure_overflow rfl rfl hretry
  rw [hraise] at hok
  cases hok

end AoMarket.RetryBackoff
