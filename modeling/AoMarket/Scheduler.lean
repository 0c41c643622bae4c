import AoMarket.AutoTrack
import AoMarket.Polling

/-!
bot/scheduler.py: the two background loops. A turn of a loop is a coroutine whose
exceptions are caught; the sleep between two turns is not inside any try. The times a
loop sets on the bot are returned with its turns.
-/

namespace AoMarket.Scheduler

open Coroutine PyNumber Environment SettingsRepo Polling AutoTrack

/-- The calls of a loop: those of the services, and asyncio.sleep. -/
inductive LoopCall where
  | call (c : Call)
  | sleep
deriving DecidableEq, Repr

abbrev Loop (α : Type) := Coro LoopCall World PyErr α

/-- `completedAt` is the time stored in last_poll_at or last_autotrack_at, if one is. -/
structure Turn where
  interval : ℤ
  completedAt : Option ℤ
deriving DecidableEq, Repr

/-- Whether stop() has been called by turn `k`, and what happens to the world while the
loop sleeps in that turn. -/
structure Surroundings where
  stopping : ℕ → Bool
  asleep : ℕ → World → World

/-- `await asyncio.sleep(interval)` of a positive interval, which is made a float. -/
def sleep (asleep : World → World) (interval : ℤ) : Loop Unit :=
  Coro.act .sleep fun w =>
    match double interval with
    | some _ => (.ok (), asleep w)
    | none => (.error .overflow, w)

/-- `max(60, 60 * interval_minutes)`. -/
def seconds (intervalMinutes : ℤ) : ℤ := max 60 (60 * intervalMinutes)

/-- `datetime.now(UTC)`. -/
def utcNow (env : Env) : M ℤ := external .clock fun tick => .ok (env.clock tick)

/-! poll_loop -/

def pollTurn (env : Env) : M Turn :=
  tryCatch (do
    let interval := seconds (← getInt env "PollIntervalMinutes")
    let _ ← pollMarket env
    let now ← utcNow env
    return { interval := interval, completedAt := some now })
  fun _ => return { interval := 60, completedAt := none }

/-- The turns from number `turn` on. -/
def pollLoop (env : Env) (around : Surroundings) : ℕ → ℕ → Loop (List Turn)
  | 0, _ => pure []
  | fuel + 1, turn =>
    if around.stopping turn then pure []
    else do
      let t ← (pollTurn env).relabel .call
      sleep (around.asleep turn) t.interval
      let rest ← pollLoop env around fuel (turn + 1)
      return t :: rest

/-! autotrack_loop -/

/-- `now.timestamp() - last_sync >= interval`, in floats. -/
def stale (now lastSync interval : ℤ) : Except PyErr Bool :=
  match double (now / 1000000), double lastSync with
  | some t, some s => .ok ((PyNum.int interval).le (.float (.ofRat (t - s))))
  | _, _ => .error .overflow

/-- The catch-up before the loop; returns the time of a resync. -/
def catchUp (env : Env) : M (Option ℤ) :=
  tryCatch (do
    if !(← getBool env "AutoTrackEnabled") then
      return none
    let interval := seconds (← getInt env "AutoTrackIntervalMinutes")
    let lastSync ← getInt env "AutoTrackLastSync"
    let now ← utcNow env
    if !(← Coro.ofExcept (stale now lastSync interval)) then
      return none
    let _ ← syncTopTradedItems env
    return some (← utcNow env))
  fun _ => return none

def readInterval (env : Env) : M ℤ :=
  tryCatch (do return seconds (← getInt env "AutoTrackIntervalMinutes")) fun _ => return 60

def autotrackTurn (env : Env) : M (Option ℤ) :=
  tryCatch (do
    if !(← getBool env "AutoTrackEnabled") then
      return none
    if (← getInt env "AutoTrackCount") < 1 then
      return none
    let _ ← syncTopTradedItems env
    return some (← utcNow env))
  fun _ => return none

def autotrackTurns (env : Env) (around : Surroundings) : ℕ → ℕ → Loop (List Turn)
  | 0, _ => pure []
  | fuel + 1, turn =>
    if around.stopping turn then pure []
    else do
      let interval ← (readInterval env).relabel .call
      sleep (around.asleep turn) interval
      let completedAt ← (autotrackTurn env).relabel .call
      let rest ← autotrackTurns env around fuel (turn + 1)
      return { interval := interval, completedAt := completedAt } :: rest

def autotrackLoop (env : Env) (around : Surroundings) (fuel : ℕ) :
    Loop (Option ℤ × List Turn) := do
  let first ← (catchUp env).relabel .call
  return (first, ← autotrackTurns env around fuel 0)

end AoMarket.Scheduler
