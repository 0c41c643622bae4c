import AoMarket.Rounding
import AoMarket.Scheduler
import AoMarket.Survival

/-!
What ends a background loop. A turn catches whatever its cycle raises; only the sleep
after it is outside, and it raises for an interval that no float holds. The poll loop
never gets there on its own, because a cycle with such an interval fails on its
cut-off time first; the resync loop does not compute one.
-/

namespace AoMarket.SchedulerRuns

open Coroutine Outcomes Relational Interleaving Survival PyNumber Rounding Environment SettingsRepo
  Models Database Polling AutoTrack Scheduler

variable {env : Env} {w : World}

theorem yields_anything {α : Type} (p : M α) (w : World) :
    Yields p w (fun _ _ => True) fun _ _ => True :=
  .of_run (fun _ _ _ => trivial) fun _ _ _ => trivial

/-! Reading an interval -/

/-- A delay that asyncio.sleep takes. -/
def Sleepable (interval : ℤ) : Prop := (double interval).isSome = true

theorem sleepable_of_le {interval : ℤ} (h : |interval| ≤ 2 ^ 100) : Sleepable interval := by
  have hcast : |(interval : ℚ)| ≤ 2 ^ 100 := by exact_mod_cast h
  obtain ⟨x, hx⟩ := double_isSome hcast
  unfold Sleepable
  rw [hx]
  rfl

theorem sleepable_sixty : Sleepable 60 := sleepable_of_le (by norm_num)

theorem sixty_le_seconds (minutes : ℤ) : 60 ≤ seconds minutes := le_max_left _ _

theorem run_sleep {asleep : World → World} {interval : ℤ} (h : Sleepable interval) (w : World) :
    (sleep asleep interval).run w = (.ok (), asleep w) := by
  obtain ⟨x, hx⟩ := Option.isSome_iff_exists.mp h
  simp only [sleep, Coro.run_act, hx]

theorem run_sleep_overflow {asleep : World → World} {interval : ℤ} (h : ¬ Sleepable interval)
    (w : World) : (sleep asleep interval).run w = (.error .overflow, w) := by
  have hnone : double interval = none := by
    unfold Sleepable at h
    simpa using h
  simp only [sleep, Coro.run_act, hnone]

/-! The poll loop, on its own between two awaits -/

theorem cutoff_bound {now minutes t : ℤ} (h : cutoff now (minutes * usPerMinute) = .ok t) :
    |minutes| ≤ 10 ^ 15 := by
  have hdays : |minutes * usPerMinute / usPerDay| ≤ 999999999 := by
    by_contra hlarge
    unfold cutoff timedelta at h
    rw [if_neg hlarge] at h
    cases h
  unfold usPerMinute usPerDay at hdays
  rw [abs_le] at hdays ⊢
  omega

/-- A due list that was selected was selected with the stored interval. -/
theorem selectDue_interval {due : Due} {w' : World} (h : (selectDue env).run w = (.ok due, w')) :
    ∃ minutes, readSetting env w.db "PollIntervalMinutes" = .ok (.int minutes) ∧
      |minutes| ≤ 10 ^ 15 := by
  unfold selectDue at h
  obtain ⟨now, w₁, hclock, h⟩ := Coro.run_bind_eq_ok h
  have hw₁ : w₁.db = w.db := by
    unfold external at hclock
    rw [Coro.run_act] at hclock
    cases hclock
    rfl
  obtain ⟨retention, w₂, hretention, h⟩ := Coro.run_bind_eq_ok h
  obtain ⟨_, rfl⟩ := getInt_ok hretention
  obtain ⟨expire, w₃, hexpire, h⟩ := Coro.run_bind_eq_ok h
  obtain ⟨_, rfl⟩ := getInt_ok hexpire
  obtain ⟨minutes, w₄, hminutes, h⟩ := Coro.run_bind_eq_ok h
  obtain ⟨hread, rfl⟩ := getInt_ok hminutes
  have hdb : w₁.next.next.db = w.db := hw₁
  rw [hdb] at hread
  obtain ⟨batch, w₅, _, h⟩ := Coro.run_bind_eq_ok h
  obtain ⟨stale, w₆, _, h⟩ := Coro.run_bind_eq_ok h
  obtain ⟨expired, w₇, _, h⟩ := Coro.run_bind_eq_ok h
  obtain ⟨old, w₈, _, h⟩ := Coro.run_bind_eq_ok h
  obtain ⟨_, w₉, _, h⟩ := Coro.run_bind_eq_ok h
  obtain ⟨polled, w₁₀, hcut, _⟩ := Coro.run_bind_eq_ok h
  rw [Coro.run_ofExcept] at hcut
  exact ⟨minutes, hread, cutoff_bound (Prod.mk.inj hcut).1⟩

/-- What a turn of the poll loop says of itself: after a completed cycle it sleeps for the
stored interval, after a failed one for a minute. -/
structure Paced (env : Env) (w : World) (t : Turn) : Prop where
  least : 60 ≤ t.interval
  failed : t.completedAt = none → t.interval = 60
  completed : t.completedAt.isSome = true → ∃ minutes,
    readSetting env w.db "PollIntervalMinutes" = .ok (.int minutes) ∧ t.interval = seconds minutes
  sleepable : Sleepable t.interval

/-- Whatever fails in its cycle, a turn returns, with a delay that asyncio.sleep takes. -/
theorem pollTurn_paced (env : Env) (w : World) :
    Returns (pollTurn env) w fun t _ => Paced env w t := by
  refine Yields.handle ?_ fun _ _ (_ : True) => Yields.pure ?_
  swap
  · exact ⟨le_refl _, fun _ => rfl, (fun h => by cases h), sleepable_sixty⟩
  refine Yields.bind (Q := fun minutes t =>
    readSetting env w.db "PollIntervalMinutes" = .ok (.int minutes) ∧ t = w.next)
      (.of_run (fun _ _ hrun => getInt_ok hrun) fun _ _ _ => trivial) ?_
  rintro minutes _ ⟨hread, rfl⟩
  refine Yields.bind (Q := fun _ _ => |minutes| ≤ 10 ^ 15)
    (.of_run (fun _ _ hrun => ?_) fun _ _ _ => trivial) fun _ t hbound => ?_
  · obtain ⟨due, w₁, hdue, _⟩ := Coro.run_bind_eq_ok hrun
    obtain ⟨minutes', hread', hbound⟩ := selectDue_interval hdue
    have hdb : w.next.db = w.db := rfl
    rw [hdb, hread] at hread'
    cases hread'
    exact hbound
  refine Yields.bind (yields_anything _ _) fun now t' _ => Yields.pure ?_
  refine ⟨sixty_le_seconds minutes, fun h => (by cases h), fun _ => ⟨minutes, hread, rfl⟩, ?_⟩
  refine sleepable_of_le ?_
  have hrange := abs_le.mp hbound
  show |max 60 (60 * minutes)| ≤ 2 ^ 100
  rw [abs_le]
  constructor
  · have := le_max_left 60 (60 * minutes)
    omega
  · refine max_le (by norm_num) ?_
    omega

variable {around : Surroundings}

def turnsMade (around : Surroundings) : ℕ → ℕ → ℕ
  | 0, _ => 0
  | fuel + 1, turn => if around.stopping turn then 0 else turnsMade around fuel (turn + 1) + 1

def pollStart (env : Env) (around : Surroundings) : ℕ → ℕ → World → World
  | 0, _, w => w
  | k + 1, turn, w =>
    pollStart env around k (turn + 1) (around.asleep turn ((pollTurn env).run w).2)

/-- No bad cycle kills the poll loop: whatever fails, in whatever turn, and whatever happens
to the database while it sleeps, it makes every turn until it is stopped, and sleeps after
each for as long as the world at its start says. -/
theorem poll_loop_survives (env : Env) (around : Surroundings) (fuel turn : ℕ) (w : World) :
    Returns (pollLoop env around fuel turn) w fun turns _ =>
      turns.length = turnsMade around fuel turn ∧ ∀ k t, turns[k]? = some t →
        ((pollTurn env).run (pollStart env around k turn w)).1 = .ok t ∧
          Paced env (pollStart env around k turn w) t := by
  induction fuel generalizing turn w with
  | zero => exact Yields.pure ⟨rfl, by simp⟩
  | succ fuel ih =>
    unfold pollLoop turnsMade
    by_cases hstop : around.stopping turn = true
    · rw [if_pos hstop, if_pos hstop]
      exact Yields.pure ⟨rfl, by simp⟩
    rw [if_neg hstop, if_neg hstop]
    obtain ⟨t, w₁, hrun, hpaced⟩ := (pollTurn_paced env w).exists_run
    have hturn := hrun
    rw [← Coro.run_relabel LoopCall.call] at hturn
    rw [Returns, Yields, Coro.run_bind_ok hturn, Coro.run_bind_ok (run_sleep hpaced.sleepable w₁)]
    refine Yields.bind (ih (turn + 1) (around.asleep turn w₁)) ?_
    rintro turns w₂ ⟨hlength, hall⟩
    refine Yields.pure ⟨by rw [List.length_cons, hlength], ?_⟩
    intro k t' ht'
    cases k with
    | zero =>
      cases ht'
      exact ⟨by rw [pollStart, hrun], hpaced⟩
    | succ k =>
      rw [pollStart, hrun]
      exact hall k t' ht'

/-! The resync loop, on its own between two awaits -/

/-- The interval that is read would be no float. -/
def TooLong (env : Env) (w : World) : Prop :=
  ∃ minutes, env.dbFault w.tick = none ∧
    readSetting env w.db "AutoTrackIntervalMinutes" = .ok (.int minutes) ∧
      ¬ Sleepable (seconds minutes)

def turnStart (env : Env) (around : Surroundings) : ℕ → ℕ → World → World
  | 0, _, w => w
  | k + 1, turn, w =>
    turnStart env around k (turn + 1)
      ((autotrackTurn env).run (around.asleep turn w.next)).2

/-- The interval is a minute at least, and asyncio.sleep refuses it only if no float holds it. -/
theorem run_readInterval (env : Env) (w : World) :
    ∃ interval, (readInterval env).run w = (.ok interval, w.next) ∧ 60 ≤ interval ∧
      (¬ Sleepable interval ↔ TooLong env w) := by
  unfold readInterval TooLong
  rw [Coro.run_handle, Coro.run_bind]
  unfold getInt
  rw [Coro.run_bind, run_get]
  have hminute : ∀ interval : ℤ, interval = 60 → ∀ C : Prop, ¬ C →
      (¬ Sleepable interval ↔ C) := by
    rintro _ rfl C hC
    exact ⟨fun h => absurd sleepable_sixty h, fun h => absurd h hC⟩
  cases hfault : env.dbFault w.tick with
  | some e =>
    refine ⟨60, rfl, le_refl _, hminute 60 rfl _ ?_⟩
    rintro ⟨_, hup, _⟩
    cases hup
  | none =>
    cases hread : readSetting env w.db "AutoTrackIntervalMinutes" with
    | error e =>
      refine ⟨60, rfl, le_refl _, hminute 60 rfl _ ?_⟩
      rintro ⟨_, _, hint, _⟩
      cases hint
    | ok v =>
      cases v with
      | int minutes =>
        refine ⟨seconds minutes, rfl, sixty_le_seconds minutes, ?_, ?_⟩
        · exact fun h => ⟨minutes, rfl, rfl, h⟩
        · rintro ⟨minutes', _, hint, h⟩
          cases hint
          exact h
      | _ =>
        refine ⟨60, rfl, le_refl _, hminute 60 rfl _ ?_⟩
        rintro ⟨_, _, hint, _⟩
        cases hint

theorem autotrackTurn_returns (env : Env) (w : World) :
    Returns (autotrackTurn env) w fun _ _ => True :=
  Yields.handle (yields_anything _ _) fun _ _ _ => Yields.pure trivial

/-- The loop makes its turns, or ends in the OverflowError of a sleep whose interval was
too long. -/
theorem autotrackTurns_end (env : Env) (around : Surroundings) (fuel turn : ℕ) (w : World) :
    Yields (autotrackTurns env around fuel turn) w
      (fun turns _ => (turns.length = turnsMade around fuel turn ∧ ∀ t ∈ turns, 60 ≤ t.interval) ∧
        ∀ k < turnsMade around fuel turn, ¬ TooLong env (turnStart env around k turn w))
      (fun e _ => e = .overflow ∧
        ∃ k < turnsMade around fuel turn, TooLong env (turnStart env around k turn w)) := by
  induction fuel generalizing turn w with
  | zero => exact Yields.pure ⟨⟨rfl, by simp⟩, fun k hk => absurd hk (Nat.not_lt_zero k)⟩
  | succ fuel ih =>
    unfold autotrackTurns turnsMade
    by_cases hstop : around.stopping turn = true
    · rw [if_pos hstop, if_pos hstop]
      exact Yields.pure ⟨⟨rfl, by simp⟩, fun k hk => absurd hk (Nat.not_lt_zero k)⟩
    rw [if_neg hstop, if_neg hstop]
    obtain ⟨interval, hread, hleast, hlong⟩ := run_readInterval env w
    rw [← Coro.run_relabel LoopCall.call] at hread
    rw [Yields, Coro.run_bind_ok hread]
    by_cases hsleep : Sleepable interval
    swap
    · rw [Coro.run_bind_error (run_sleep_overflow hsleep w.next)]
      exact ⟨rfl, 0, Nat.succ_pos _, hlong.mp hsleep⟩
    have hfirst : ¬ TooLong env w := fun h => hlong.mpr h hsleep
    rw [Coro.run_bind_ok (run_sleep hsleep w.next)]
    obtain ⟨completedAt, w₁, hturn, _⟩ :=
      (autotrackTurn_returns env (around.asleep turn w.next)).exists_run
    have hstart : ∀ k, turnStart env around (k + 1) turn w =
        turnStart env around k (turn + 1) w₁ := by
      intro k
      rw [turnStart, hturn]
    rw [← Coro.run_relabel LoopCall.call] at hturn
    rw [Coro.run_bind_ok hturn]
    refine Yields.bind ((ih (turn + 1) w₁).mono (fun _ _ h => h) ?_) ?_
    · rintro e t ⟨he, k, hk, hbad⟩
      exact ⟨he, k + 1, Nat.succ_lt_succ hk, by rwa [hstart]⟩
    · rintro turns t ⟨⟨hlength, hall⟩, hgood⟩
      refine Yields.pure ⟨⟨by rw [List.length_cons, hlength], ?_⟩, ?_⟩
      · intro t' ht'
        rcases List.mem_cons.mp ht' with rfl | ht'
        · exact hleast
        · exact hall t' ht'
      · intro k hk
        cases k with
        | zero => exact hfirst
        | succ k =>
          rw [hstart]
          exact hgood k (Nat.lt_of_succ_lt_succ hk)

theorem catchUp_returns (env : Env) (w : World) : Returns (catchUp env) w fun _ _ => True :=
  Yields.handle (yields_anything _ _) fun _ _ _ => Yields.pure trivial

/-- The resync loop makes every turn until it is stopped, whatever fails in it, unless a turn
finds an interval stored that is no float; that turn ends it. -/
theorem autotrack_loop_ends_iff (env : Env) (around : Surroundings) (fuel : ℕ) (w : World) :
    Yields (autotrackLoop env around fuel) w
      (fun r _ => (r.2.length = turnsMade around fuel 0 ∧ ∀ t ∈ r.2, 60 ≤ t.interval) ∧
        ∀ k < turnsMade around fuel 0,
          ¬ TooLong env (turnStart env around k 0 ((catchUp env).run w).2))
      (fun e _ => e = .overflow ∧ ∃ k < turnsMade around fuel 0,
        TooLong env (turnStart env around k 0 ((catchUp env).run w).2)) := by
  obtain ⟨first, w₁, hfirst, _⟩ := (catchUp_returns env w).exists_run
  rw [hfirst]
  rw [← Coro.run_relabel LoopCall.call] at hfirst
  unfold autotrackLoop
  rw [Yields, Coro.run_bind_ok hfirst]
  exact Yields.bind (autotrackTurns_end env around fuel 0 w₁) fun _ _ h => Yields.pure h

/-! In company -/

section Company
variable {I : World → Prop}

/-- A setting that was read was stored so in a state of the run. -/
theorem gives_get (key : String) :
    Gives I (fun v => ∃ w, I w ∧ readSetting env w.db key = .ok v) (get env key) := by
  unfold SettingsRepo.get
  refine Coro.Always.bind (Q := fun row => ∃ w, I w ∧
    readSetting env w.db key = deserialize env.py row.value row.valueType) ?_ ?_
  · refine Coro.Always.act (fun _ _ => trivial) fun w hw row hrow => ⟨w, hw, ?_⟩
    have hrun : (getRow env key).run w = (.ok row, ((getRow env key).run w).2) := by
      refine Prod.ext ?_ rfl
      unfold getRow query statement
      rw [Coro.run_act]
      exact hrow
    obtain ⟨hread, _⟩ := run_query_eq_ok hrun
    obtain ⟨u, htext, hread⟩ := except_bind_eq_ok.mp hread
    unfold readSetting
    rw [htext, ok_bind]
    cases hlookup : lookup Setting.key key w.db.settings with
    | none =>
      rw [hlookup] at hread
      cases hread
    | some r =>
      rw [hlookup] at hread
      cases hread
      rfl
  · rintro row ⟨w, hw, hread⟩
    exact Coro.Always.ofExcept fun v hv => ⟨w, hw, by rw [hread, hv]⟩

theorem gives_getInt (key : String) :
    Gives I (fun n => ∃ w, I w ∧ readSetting env w.db key = .ok (.int n)) (getInt env key) := by
  refine Coro.Always.bind (gives_get key) fun v hv => ?_
  cases v with
  | int n => exact Coro.Always.pure hv
  | _ => exact Coro.Always.throw _

theorem gives_getBool (key : String) :
    Gives I (fun b => ∃ w, I w ∧ readSetting env w.db key = .ok (.bool b)) (getBool env key) := by
  refine Coro.Always.bind (gives_get key) fun v hv => ?_
  cases v with
  | bool b => exact Coro.Always.pure hv
  | _ => exact Coro.Always.throw _

/-- The interval stored under the key is a delay. -/
def Fitting (env : Env) (key : String) (w : World) : Prop :=
  ∀ minutes, readSetting env w.db key = .ok (.int minutes) → Sleepable (seconds minutes)

theorem survives_sleep {asleep : World → World} {interval : ℤ} (h : Sleepable interval) :
    Survives I (fun _ => True) (sleep asleep interval) :=
  Survives.act fun w _ => by
    obtain ⟨x, hx⟩ := Option.isSome_iff_exists.mp h
    exact ⟨(), by rw [hx], trivial⟩

theorem survives_pollTurn :
    Survives (Fitting env "PollIntervalMinutes") (fun t : Turn => Sleepable t.interval)
      (pollTurn env) := by
  refine Survives.handle ?_ fun _ => sleepable_sixty
  refine Coro.Always.bind (gives_getInt _) fun minutes hminutes => ?_
  obtain ⟨w, hw, hread⟩ := hminutes
  refine Coro.Always.bind (gives_anything _) fun _ _ => ?_
  exact Coro.Always.bind (gives_anything _) fun _ _ => Coro.Always.pure (hw minutes hread)

/-- The loop outlives any company that leaves its interval one that a float holds. -/
theorem survives_pollLoop (around : Surroundings) (fuel turn : ℕ) :
    Survives (Fitting env "PollIntervalMinutes") (fun _ => True)
      (pollLoop env around fuel turn) := by
  induction fuel generalizing turn with
  | zero => exact Survives.pure trivial
  | succ fuel ih =>
    unfold pollLoop
    split
    · exact Survives.pure trivial
    · refine Survives.bind survives_pollTurn.relabel fun t ht => ?_
      refine Survives.bind (survives_sleep ht) fun _ _ => ?_
      exact Survives.bind (ih (turn + 1)) fun _ _ => Survives.pure trivial

theorem survives_autotrackTurns (around : Surroundings) (fuel turn : ℕ) :
    Survives (Fitting env "AutoTrackIntervalMinutes") (fun _ => True)
      (autotrackTurns env around fuel turn) := by
  have hread : Survives (Fitting env "AutoTrackIntervalMinutes") Sleepable (readInterval env) := by
    refine Survives.handle ?_ fun _ => sleepable_sixty
    refine Coro.Always.bind (gives_getInt _) fun minutes hminutes => ?_
    obtain ⟨w, hw, hread⟩ := hminutes
    exact Coro.Always.pure (hw minutes hread)
  have hturn : Survives (Fitting env "AutoTrackIntervalMinutes") (fun _ => True)
      (autotrackTurn env) := Survives.handle (gives_anything _) fun _ => trivial
  induction fuel generalizing turn with
  | zero => exact Survives.pure trivial
  | succ fuel ih =>
    unfold autotrackTurns
    split
    · exact Survives.pure trivial
    · refine Survives.bind hread.relabel fun interval hinterval => ?_
      refine Survives.bind (survives_sleep hinterval) fun _ _ => ?_
      refine Survives.bind hturn.relabel fun _ _ => ?_
      exact Survives.bind (ih (turn + 1)) fun _ _ => Survives.pure trivial

theorem survives_autotrackLoop (around : Surroundings) (fuel : ℕ) :
    Survives (Fitting env "AutoTrackIntervalMinutes") (fun _ => True)
      (autotrackLoop env around fuel) := by
  have hfirst : Survives (Fitting env "AutoTrackIntervalMinutes") (fun _ => True)
      (catchUp env) := Survives.handle (gives_anything _) fun _ => trivial
  refine Survives.bind hfirst.relabel fun _ _ => ?_
  exact Survives.bind (survives_autotrackTurns around fuel 0) fun _ _ => Survives.pure trivial

/-- The loops with no result to give, as tasks of one event loop. -/
def pollTask (env : Env) (around : Surroundings) (fuel : ℕ) : Loop Unit := do
  let _ ← pollLoop env around fuel 0

def autotrackTask (env : Env) (around : Surroundings) (fuel : ℕ) : Loop Unit := do
  let _ ← autotrackLoop env around fuel

/-- In any company, and however the awaits interleave, no exception ends either loop as long
as the intervals that are stored are delays. -/
theorem loops_survive_company {ι : Type} [DecidableEq ι] (env : Env) (around : Surroundings)
    (fuel : ℕ) {P : Pool ι LoopCall World PyErr Unit} {poll autotrack : ι}
    (hpoll : P.thread poll = pollTask env around fuel)
    (hautotrack : P.thread autotrack = autotrackTask env around fuel) {schedule : List ι}
    (hfit : P.Respects (fun P _ => Fitting env "PollIntervalMinutes" P.shared ∧
      Fitting env "AutoTrackIntervalMinutes" P.shared) schedule) :
    ((P.exec schedule).thread poll).raised = false ∧
      ((P.exec schedule).thread autotrack).raised = false := by
  constructor
  · have h : Survives (Fitting env "PollIntervalMinutes") (fun _ => True) (P.thread poll) := by
      rw [hpoll]
      exact Survives.bind (survives_pollLoop around fuel 0) fun _ _ => Survives.pure trivial
    exact (survives_exec h (hfit.mono fun _ _ h => h.1)).not_raised
  · have h : Survives (Fitting env "AutoTrackIntervalMinutes") (fun _ => True)
        (P.thread autotrack) := by
      rw [hautotrack]
      exact Survives.bind (survives_autotrackLoop around fuel) fun _ _ => Survives.pure trivial
    exact (survives_exec h (hfit.mono fun _ _ h => h.2)).not_raised

def resting : World where
  db :=
    { toTables :=
        { settings := [⟨"PollIntervalMinutes", "30", .int⟩, ⟨"HistoryRetentionDays", "90", .int⟩,
            ⟨"WatchExpireDays", "30", .int⟩, ⟨"PollBatchSize", "25", .int⟩,
            ⟨"AutoTrackIntervalMinutes", "60", .int⟩, ⟨"AutoTrackEnabled", "false", .bool⟩] }
      sound := by constructor <;> simp [Keyed, Refers] }

def unstopped : Surroundings := ⟨fun _ => false, fun _ w => w⟩

def restingLoops : Pool Bool LoopCall World PyErr Unit :=
  .start resting fun i => if i then pollTask .calm unstopped 2 else autotrackTask .calm unstopped 2

theorem readSetting_congr {w w' : World} (h : w.db.settings = w'.db.settings) (key : String) :
    readSetting env w.db key = readSetting env w'.db key := by
  unfold readSetting
  rw [h]

theorem fitting_resting {w : World} (h : w.db.settings = resting.db.settings) :
    Fitting .calm "PollIntervalMinutes" w ∧ Fitting .calm "AutoTrackIntervalMinutes" w := by
  have hpoll : readSetting .calm resting.db "PollIntervalMinutes" = .ok (.int 30) := by rfl
  have hautotrack : readSetting .calm resting.db "AutoTrackIntervalMinutes" = .ok (.int 60) := by
    rfl
  constructor
  · intro minutes hread
    rw [readSetting_congr h, hpoll] at hread
    cases hread
    exact sleepable_of_le (by decide)
  · intro minutes hread
    rw [readSetting_congr h, hautotrack] at hread
    cases hread
    exact sleepable_of_le (by decide)

def restingTurns : List Bool :=
  [true, false, false, true] ++ List.replicate 8 true ++ [false, false, true, true, false]

/-- Both loops have slept and are in their second turn. -/
theorem resting_loops_survive :
    (((restingLoops.exec restingTurns).thread true).raised = false ∧
      ((restingLoops.exec restingTurns).thread false).raised = false) ∧
    ((restingLoops.exec restingTurns).thread true).waiting = some (.call .clock) ∧
      ((restingLoops.exec restingTurns).thread false).waiting = some .sleep := by
  have hsettings : restingLoops.Respects
      (fun P _ => P.shared.db.settings = resting.db.settings) restingTurns := by decide +kernel
  refine ⟨loops_survive_company .calm unstopped 2 (P := restingLoops) rfl rfl ?_, ?_⟩
  · exact hsettings.mono fun _ _ h => fitting_resting h
  · decide +kernel

/-! Auto-tracking switched off -/

/-- AutoTrackEnabled is not stored as true. -/
def Off (env : Env) (w : World) : Prop :=
  readSetting env w.db "AutoTrackEnabled" ≠ .ok (.bool true)

/-- A call that only looks at a setting, or the sleep. -/
def Idle (c : LoopCall) (w w' : World) : Prop :=
  (c = .call .getSetting ∨ c = .sleep) ∧ w'.db = w.db ∧ w'.log = w.log

/-- Reading a setting changes nothing. -/
def Looks (c : Call) (w w' : World) : Prop := c = .getSetting ∧ w'.db = w.db ∧ w'.log = w.log

theorem looks_query {α : Type} (f : ℕ → Db → Except PyErr α) :
    (query env .getSetting f).Always I Looks fun _ => True := by
  refine Coro.Always.act (fun w _ => ?_) fun _ _ _ _ => trivial
  cases hfault : env.dbFault w.tick with
  | some e => exact ⟨rfl, rfl, rfl⟩
  | none =>
    cases hres : f w.tick w.db with
    | error e => simp [Looks, hres, Except.map, World.next]
    | ok a => simp [Looks, hres, Except.map]

theorem looks_get (key : String) : (get env key).Always I Looks fun _ => True :=
  Coro.Always.bind (looks_query _) fun _ _ => Coro.Always.ofExcept fun _ _ => trivial

theorem looks_getInt (key : String) : (getInt env key).Always I Looks fun _ => True := by
  refine Coro.Always.bind (looks_get key) fun v _ => ?_
  cases v with
  | int n => exact Coro.Always.pure trivial
  | _ => exact Coro.Always.throw _

theorem looks_getBool (key : String) : (getBool env key).Always I Looks fun _ => True := by
  refine Coro.Always.bind (looks_get key) fun v _ => ?_
  cases v with
  | bool b => exact Coro.Always.pure trivial
  | _ => exact Coro.Always.throw _

/-- Switched off, the setting is read as false if it is read at all. -/
theorem looks_enabled :
    (getBool env "AutoTrackEnabled").Always (Off env) Looks fun b => b = false := by
  refine Coro.Always.mono ((looks_getBool _).and (gives_getBool _)) (fun _ h => h)
    (fun _ _ _ _ h => h.1) ?_
  rintro b ⟨_, w, hoff, hread⟩
  cases b with
  | false => rfl
  | true => exact absurd hread hoff

theorem idle_of_looks {α : Type} {p : M α} {Q : α → Prop} (h : p.Always (Off env) Looks Q) :
    (p.relabel LoopCall.call).Always (Off env) Idle Q := by
  refine Coro.always_relabel.mpr (Coro.Always.mono h (fun _ h => h) ?_ fun _ h => h)
  rintro _ _ _ _ ⟨rfl, hsame⟩
  exact ⟨Or.inl rfl, hsame⟩

theorem looks_catchUp : (catchUp env).Always (Off env) Looks fun _ => True := by
  refine Coro.Always.handle (Coro.Always.bind looks_enabled ?_) fun _ => Coro.Always.pure trivial
  rintro _ rfl
  exact Coro.Always.pure trivial

theorem looks_autotrackTurn : (autotrackTurn env).Always (Off env) Looks fun _ => True := by
  refine Coro.Always.handle (Coro.Always.bind looks_enabled ?_) fun _ => Coro.Always.pure trivial
  rintro _ rfl
  exact Coro.Always.pure trivial

theorem looks_readInterval : (readInterval env).Always (Off env) Looks fun _ => True :=
  Coro.Always.handle (Coro.Always.bind (looks_getInt _) fun _ _ => Coro.Always.pure trivial)
    fun _ => Coro.Always.pure trivial

/-- While the loop sleeps the rest of the program runs in coroutines of its own. -/
def apart (stopping : ℕ → Bool) : Surroundings := ⟨stopping, fun _ w => w⟩

theorem idle_sleep (interval : ℤ) : (sleep (fun w => w) interval).Always I Idle fun _ => True := by
  refine Coro.Always.act (fun w _ => ?_) fun _ _ _ _ => trivial
  cases double interval with
  | none => exact ⟨Or.inr rfl, rfl, rfl⟩
  | some x => exact ⟨Or.inr rfl, rfl, rfl⟩

/-- While the setting is off a turn looks at it and sleeps. -/
theorem idle_autotrackTurns (stopping : ℕ → Bool) (fuel turn : ℕ) :
    (autotrackTurns env (apart stopping) fuel turn).Always (Off env) Idle fun _ => True := by
  induction fuel generalizing turn with
  | zero => exact Coro.Always.pure trivial
  | succ fuel ih =>
    unfold autotrackTurns
    split
    · exact Coro.Always.pure trivial
    · refine Coro.Always.bind (idle_of_looks looks_readInterval) fun interval _ => ?_
      refine Coro.Always.bind (idle_sleep interval) fun _ _ => ?_
      refine Coro.Always.bind (idle_of_looks looks_autotrackTurn) fun _ _ => ?_
      exact Coro.Always.bind (ih (turn + 1)) fun _ _ => Coro.Always.pure trivial

theorem idle_autotrackTask (stopping : ℕ → Bool) (fuel : ℕ) :
    (autotrackTask env (apart stopping) fuel).Always (Off env) Idle fun _ => True := by
  refine Coro.Always.bind (Q := fun _ => True) ?_ fun _ _ => Coro.Always.pure trivial
  refine Coro.Always.bind (idle_of_looks looks_catchUp) fun _ _ => ?_
  exact Coro.Always.bind (idle_autotrackTurns stopping fuel 0) fun _ _ => Coro.Always.pure trivial

/-- As long as auto-tracking is off, the resync loop looks at settings and sleeps: in any
company, each of its turns leaves the database as it is and asks nobody anything. -/
theorem disabled_autotrack_idles {ι : Type} [DecidableEq ι] (env : Env) (stopping : ℕ → Bool)
    (fuel : ℕ) {P : Pool ι LoopCall World PyErr Unit} {i : ι}
    (hthread : P.thread i = autotrackTask env (apart stopping) fuel) {schedule : List ι}
    (hoff : P.Respects (fun P _ => Off env P.shared) (schedule ++ [i])) {c : LoopCall}
    (hwaits : ((P.exec schedule).thread i).waiting = some c) :
    Idle c (P.exec schedule).shared ((P.exec schedule).turn i).shared := by
  have hidle : (P.thread i).Always (Off env) Idle fun _ => True := by
    rw [hthread]
    exact idle_autotrackTask stopping fuel
  have hsplit := respects_append.mp hoff
  have hlast := always_exec hidle hsplit.1
  cases hi : (P.exec schedule).thread i with
  | ret a | raise e =>
    rw [hi] at hwaits
    cases hwaits
  | step call u k =>
    rw [hi] at hwaits hlast
    cases hwaits
    rw [Pool.turn_of_step hi]
    exact (Coro.always_step.mp hlast _ hsplit.2.1).1

theorem resting_loop_idles :
    Idle (.call .getSetting) (restingLoops.exec [true, false]).shared
      ((restingLoops.exec [true, false]).turn false).shared := by
  have hoff : ∀ w : World, w.db.settings = resting.db.settings → Off .calm w := by
    intro w h
    have hread : readSetting .calm resting.db "AutoTrackEnabled" = .ok (.bool false) := by rfl
    unfold Off
    rw [readSetting_congr h, hread]
    intro hsame
    cases hsame
  have hthread : restingLoops.thread false = autotrackTask .calm (apart fun _ => false) 2 := rfl
  refine @disabled_autotrack_idles Bool _ .calm (fun _ => false) 2 restingLoops false hthread
    [true, false] ⟨hoff _ rfl, hoff _ rfl, hoff _ rfl, trivial⟩ _ ?_
  rfl

end Company

end AoMarket.SchedulerRuns
