import AoMarket.Environment

/-! db/aodb_backoff_repo.py: which ids the item service did not know, and when
each may be asked for again. -/

namespace AoMarket.AodbBackoffRepo

open Coroutine Relational Models Database PyNumber Environment

/-- One hour and seven days, in microseconds. -/
def baseDelay : ℤ := 3600000000

def maxDelay : ℤ := 7 * usPerDay

/-- `none` is OverflowError: the product is formed before the cap is applied. -/
def nextRetryAt (failureCount : ℕ) (now : ℤ) : Option ℤ :=
  (timedelta (baseDelay * 2 ^ (failureCount - 1))).map fun d => now + min d maxDelay

def dueForRetry (env : Env) (aoids : List ℤ) : M (List ℤ) := do
  if aoids = [] then
    return []
  let now ← external .clock fun tick => .ok (env.clock tick)
  let stillBackedOff ← query env .dueForRetry fun _ db => do
    aoids.forM int8
    return (db.lookupBackoff.filter fun r =>
      aoids.contains r.aoid && decide (now < r.nextRetryAt)).map AodbLookupBackoff.aoid
  return aoids.filter fun a => !stillBackedOff.contains a

def recordFailure (env : Env) (aoid : ℤ) : M Unit := do
  let now ← external .clock fun tick => .ok (env.clock tick)
  let existing ← query env .getBackoff fun _ db => do
    int8 aoid
    return lookup AodbLookupBackoff.aoid aoid db.lookupBackoff
  let failureCount := (existing.map AodbLookupBackoff.failureCount).getD 0 + 1
  match nextRetryAt failureCount now with
  | none => throw .overflow
  | some retry =>
    statement env .recordFailure fun _ db => do
      int4 failureCount
      return ((), db.upsertBackoff { aoid := aoid, failureCount := failureCount,
                                     lastAttemptedAt := now, nextRetryAt := retry }, [])

def recordSuccess (env : Env) (aoid : ℤ) : M Unit :=
  statement env .recordSuccess fun _ db => do
    int8 aoid
    return ((), db.deleteBackoff fun r => r.aoid == aoid, [])

/-! What the calls do when the server is up -/

def failures (db : Db) (aoid : ℤ) : ℕ :=
  ((lookup AodbLookupBackoff.aoid aoid db.lookupBackoff).map AodbLookupBackoff.failureCount).getD 0

section Runs
variable {env : Env} {aoid : ℤ} {w : World}

/-- The reads of `recordFailure`: the time and the failures so far. -/
theorem run_recordFailure_reads (hget : env.dbFault (w.tick + 1) = none)
    (haoid : int8 aoid = .ok ()) :
    (recordFailure env aoid).run w =
      (match nextRetryAt (failures w.db aoid + 1) (env.clock w.tick) with
        | none => throw .overflow
        | some retry =>
          statement env .recordFailure fun _ db => do
            int4 (failures w.db aoid + 1 : ℕ)
            return ((), db.upsertBackoff
              { aoid := aoid, failureCount := failures w.db aoid + 1,
                lastAttemptedAt := env.clock w.tick, nextRetryAt := retry }, []) : M Unit).run
        { w with tick := w.tick + 2 } := by
  have hclock : (external .clock fun tick => .ok (env.clock tick) : M ℤ).run w =
      (.ok (env.clock w.tick), w.next) := by
    simp [external, World.next]
  have hrow : (query env .getBackoff fun _ db => do
      int8 aoid
      return lookup AodbLookupBackoff.aoid aoid db.lookupBackoff).run w.next =
      (.ok (lookup AodbLookupBackoff.aoid aoid w.db.lookupBackoff),
        { w with tick := w.tick + 2 }) := by
    rw [run_query_ok hget (by rw [haoid]; rfl)]
    simp [World.next]
  unfold recordFailure
  rw [Coro.run_bind_ok hclock, Coro.run_bind_ok hrow]
  rfl

/-- A failure whose delay can be computed stores one failure more and the time of the
next attempt. -/
theorem run_recordFailure_ok {retry : ℤ}
    (hup : ∀ t, w.tick ≤ t → t ≤ w.tick + 2 → env.dbFault t = none)
    (haoid : int8 aoid = .ok ()) (hcount : failures w.db aoid + 1 < 2 ^ 31)
    (hretry : nextRetryAt (failures w.db aoid + 1) (env.clock w.tick) = some retry) :
    (recordFailure env aoid).run w =
      (.ok (), { w with
        db := w.db.upsertBackoff
          { aoid := aoid, failureCount := failures w.db aoid + 1,
            lastAttemptedAt := env.clock w.tick, nextRetryAt := retry }
        tick := w.tick + 3 }) := by
  have hint : int4 (failures w.db aoid + 1 : ℕ) = .ok () := by
    unfold int4
    rw [if_pos ⟨by omega, by norm_num at hcount ⊢; omega⟩]
  rw [run_recordFailure_reads (hup _ (by omega) (by omega)) haoid, hretry]
  simp only
  rw [run_statement_ok (hup _ (by simp) (by simp)) (by rw [hint]; rfl)]
  simp

theorem run_recordFailure_overflow (hget : env.dbFault (w.tick + 1) = none)
    (haoid : int8 aoid = .ok ())
    (hretry : nextRetryAt (failures w.db aoid + 1) (env.clock w.tick) = none) :
    (recordFailure env aoid).run w = (.error .overflow, { w with tick := w.tick + 2 }) := by
  rw [run_recordFailure_reads hget haoid, hretry]
  rfl

end Runs

theorem lookup_upsertBackoff (db : Db) (row : AodbLookupBackoff) :
    lookup AodbLookupBackoff.aoid row.aoid (db.upsertBackoff row).lookupBackoff = some row := by
  rw [lookup_eq_some (db.upsertBackoff row).sound.backoff_key]
  unfold Db.upsertBackoff
  simp only [and_true]
  split
  · next h =>
    obtain ⟨r, hr, hid⟩ := List.mem_map.mp h
    refine List.mem_map.mpr ⟨r, hr, ?_⟩
    simp [hid]
  · simp

theorem lookup_upsertBackoff_ne (db : Db) {row : AodbLookupBackoff} {aoid : ℤ}
    (h : aoid ≠ row.aoid) :
    lookup AodbLookupBackoff.aoid aoid (db.upsertBackoff row).lookupBackoff =
      lookup AodbLookupBackoff.aoid aoid db.lookupBackoff := by
  unfold Db.upsertBackoff
  simp only
  split
  · refine (lookup_updateRows aoid _ fun _ => by rfl).trans ?_
    cases hrow : lookup AodbLookupBackoff.aoid aoid db.lookupBackoff with
    | none => rfl
    | some r =>
      have haoid : r.aoid = aoid := ((lookup_eq_some db.sound.backoff_key).mp hrow).2
      simp [haoid, h]
  · rw [lookup_insert, if_neg (Ne.symm h), Option.or_none]

end AoMarket.AodbBackoffRepo
