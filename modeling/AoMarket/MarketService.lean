import AoMarket.AuthService
import AoMarket.Rendering

/-! market/service.py: registration, tracking, subscriptions, filters and status.
Each method awaits repository calls that commit one by one. -/

namespace AoMarket.MarketService

open Coroutine Models Environment MarketRepo SettingsRepo Rendering

/-! announce/log -/

def getItem (env : Env) (aoid : ℤ) : M (Option Item) :=
  external .getItem fun tick => env.getItem tick aoid

def sendPrivgroup (env : Env) (message : String) : M Unit :=
  match env.chat.sendPrivgroup with
  | some send => external .sendPrivgroup (fun tick => send tick message)
      fun _ => [.privgroup message]
  | none => pure ()

def label (action : String) : String := action.map fun c => if c = '_' then ' ' else c

def announce (env : Env) (player action : String) (aoid : Option ℤ) : M Unit := do
  if !(← getBool env "LogToPrivateChannel") then
    return
  let suffix ← match aoid with
    | none => pure ""
    | some a => do
      match ← getItem env a with
      | some item => pure s!" ({item.name})"
      | none => pure s!" (AOID {a})"
  sendPrivgroup env s!"{player} used market {label action}{suffix}"

def announceBackground (env : Env) (message : String) : M Unit := do
  if !(← getBool env "LogBackgroundToPrivateChannel") then
    return
  sendPrivgroup env s!"Market: {message}"

/-- `auto` is `source == "auto"`. -/
def announceTracked (env : Env) (itemName : String) (auto : Bool) : M Unit := do
  if auto then
    announceBackground env s!"{itemName} added to auto-tracking"
  else
    if !(← getBool env "LogToPrivateChannel") then
      return
    sendPrivgroup env s!"{itemName} added to tracking (manual)"

def logAction (env : Env) (player action : String) (aoid : Option ℤ) : M Unit := do
  MarketRepo.logAction env player action aoid
  announce env player action aoid

/-! registration -/

def register (env : Env) (player : String) : M Unit := do
  if ← isRegistered env player then
    throw (.market (.alreadyRegistered player))
  MarketRepo.register env player
  logAction env player "register" none

def unregister (env : Env) (player : String) : M ℕ := do
  if !(← isRegistered env player) then
    throw (.market (.notRegistered player))
  let removed ← unregisterCascade env player
  announce env player "unregister" none
  return removed

/-! tracking -/

def watchItem (env : Env) (aoid : ℤ) (name : String) (ql : ℤ) (icon : Option ℤ)
    (autoTracked : Bool) : M Bool := do
  let isNew ← upsertWatch env aoid name ql icon autoTracked
  if isNew then
    announceTracked env name autoTracked
  return isNew

def untrackAll (env : Env) : M ℕ := clearWatch env

/-! subscriptions -/

/-- The part of subscribe from the limit check on. -/
def subscribeWithin (env : Env) (player : String) (aoid : ℤ) (item : Item) : M Item := do
  let limit ← getInt env "MaxSubscriptionsPerPlayer"
  if limit ≤ (← countSubscriptions env player) then
    throw (.market (.subscriptionLimit limit))
  let _ ← watchItem env aoid item.name item.ql item.icon false
  addSubscription env player aoid
  logAction env player "watch" (some aoid)
  return item

def subscribe (env : Env) (player : String) (aoid : ℤ) : M Item := do
  match ← getItem env aoid with
  | none => throw (.market (.unknownItem aoid))
  | some item =>
    if !(← isRegistered env player) then
      logAction env player "watch_denied" (some aoid)
      throw (.market (.notRegistered player))
    if (← getSubscription env player aoid).isSome then
      throw (.market (.alreadyWatching aoid))
    subscribeWithin env player aoid item

def unsubscribe (env : Env) (player : String) (aoid : ℤ) : M Bool := do
  let deleted ← deleteSubscription env player aoid
  logAction env player "unwatch" (some aoid)
  return deleted

/-- The loop of unsubscribe_bulk; returns the removed ids and the others. -/
def unsubscribeEach (env : Env) (player : String) : List ℤ → M (List ℤ × List ℤ)
  | [] => pure ([], [])
  | aoid :: rest => do
    let deleted ← unsubscribe env player aoid
    let (removed, notWatched) ← unsubscribeEach env player rest
    if deleted then
      return (aoid :: removed, notWatched)
    return (removed, aoid :: notWatched)

def unsubscribeBulk (env : Env) (player : String) (aoids : List ℤ) : M (List ℤ × List ℤ) :=
  unsubscribeEach env player (aoids.dedup.insertionSort fun a b => a ≤ b)

def unsubscribeAll (env : Env) (player : String) : M ℕ := do
  let count ← deleteAllSubscriptions env player
  logAction env player "unwatch_all" none
  return count

/-! filters -/

def requireSubscription (env : Env) (player : String) (aoid : ℤ) : M MarketSubscription := do
  match ← getSubscription env player aoid with
  | some sub => return sub
  | none => throw (.market (.notWatching aoid))

/-- set_price_filter and set_ql_filter differ in the side parser and the columns. -/
def setFilter (env : Env) (player : String) (aoid : ℤ) (spec : String)
    (parser : String → Except PyErr (Option ℤ)) (update : Option ℤ → Option ℤ → M Unit) :
    M Unit := do
  let _ ← requireSubscription env player aoid
  match ← Coro.ofExcept (Parsing.parseRange spec parser) with
  | none => throw (.market (.invalidRange spec))
  | some (lo, hi) => update lo hi

def setPriceFilter (env : Env) (player : String) (aoid : ℤ) (spec : String) : M Unit :=
  setFilter env player aoid spec (Parsing.parseCredits PyNumber.double)
    (updatePriceFilter env player aoid)

def setQlFilter (env : Env) (player : String) (aoid : ℤ) (spec : String) : M Unit :=
  setFilter env player aoid spec (Parsing.parseQl env.py) (updateQlFilter env player aoid)

def clearFilter (env : Env) (player : String) (aoid : ℤ) : M Unit := do
  let _ ← requireSubscription env player aoid
  MarketRepo.clearFilter env player aoid

def getFilter (env : Env) (player : String) (aoid : ℤ) : M MarketSubscription :=
  requireSubscription env player aoid

/-! stats/status -/

def userStats (env : Env) (player : String) : M (Option UserStats) := do
  let (total, firstSeen) ← userActionSummary env player
  if total = 0 then
    return none
  let breakdown ← userActionBreakdown env player
  let subscriptions ← countSubscriptions env player
  return some { totalActions := total, firstSeen := firstSeen,
                activeSubscriptions := subscriptions, byAction := breakdown }

def statusSummary (env : Env) : M StatusSummary := do
  let total ← countWatch env none
  let auto ← countWatch env (some true)
  return { totalTracked := total, autoTracked := auto, manuallyTracked := (total : ℤ) - auto,
           autoTrackEnabled := ← getBool env "AutoTrackEnabled",
           autoTrackCount := ← getInt env "AutoTrackCount",
           autoTrackLastSync := ← getInt env "AutoTrackLastSync" }

def statusDetails (env : Env) (limit offset : ℤ) : M (List MarketWatch) :=
  listWatch env limit offset none

end AoMarket.MarketService
