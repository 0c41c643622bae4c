import AoMarket.Environment
import Mathlib.Data.List.Sort

/-!
db/market_repo.py. A method that selects before it writes awaits twice, so
another session can write in between; the statements before one commit are one
step. An integer or a text the server cannot take makes the call fail.
-/

namespace AoMarket.MarketRepo

open Coroutine Relational Models Database OrderBook PyNumber PyText Environment

def orRefused (db : Option Db) : Except PyErr Db :=
  match db with
  | some db => .ok db
  | none => .error .database

/-! market_users -/

def getUser (env : Env) (player : String) : M (Option MarketUser) :=
  query env .getUser fun _ db => do
    text env player
    return lookup MarketUser.player player db.users

def isRegistered (env : Env) (player : String) : M Bool := do
  return (← getUser env player).isSome

def register (env : Env) (player : String) : M Unit :=
  statement env .register fun _ db => do
    text env player
    let db ← orRefused (db.insertUser { player := player, isAdmin := false })
    return ((), db, [])

def subscriptionsOf (db : Db) (player : String) : List MarketSubscription :=
  db.subscriptions.filter fun s => s.player == player

def eraseUser (db : Db) (player : String) : Db :=
  (((db.deleteSubscriptions fun s => s.player == player).deleteAlerts
    fun a => a.player == player).deleteActions
      fun a => a.player == player).deleteUsers fun u => u.player == player

def unregisterCascade (env : Env) (player : String) : M ℕ := do
  let subCount ← query env .countUserRows fun _ db => do
    text env player
    return (subscriptionsOf db player).length
  statement env .deleteUser fun _ db => .ok ((), eraseUser db player, [])
  return subCount

/-! market_watch -/

def getWatch (env : Env) (aoid : ℤ) : M (Option MarketWatch) :=
  query env .getWatch fun _ db => do
    int8 aoid
    return lookup MarketWatch.aoid aoid db.watch

/-- True if the item was not there when the method looked. -/
def upsertWatch (env : Env) (aoid : ℤ) (name : String) (ql : ℤ) (icon : Option ℤ)
    (autoTracked : Bool) : M Bool := do
  let existing ← getWatch env aoid
  statement env .upsertWatch fun tick db => do
    text env name
    int4 ql
    int4 (icon.getD 0)
    match lookup MarketWatch.aoid aoid db.watch with
    | none =>
      let db ← orRefused (db.insertWatch
        { aoid := aoid, name := name, ql := ql, icon := icon, firstSeen := env.clock tick,
          lastPolled := none, autoTracked := autoTracked })
      return ((), db, [.created aoid])
    | some _ =>
      let db := db.updateWatch (fun r => r.aoid == aoid)
        (fun r => { r with
          name := name, ql := ql, icon := icon, autoTracked := r.autoTracked || autoTracked })
        fun _ => rfl
      return ((), db, [])
  return existing.isNone

def deleteWatch (env : Env) (aoid : ℤ) : M Bool :=
  statement env .deleteWatch fun _ db => do
    int8 aoid
    return (db.watch.any fun r => r.aoid == aoid, db.deleteWatch fun r => r.aoid == aoid, [])

def countWatch (env : Env) (autoTracked : Option Bool) : M ℕ :=
  query env .countWatch fun _ db =>
    match autoTracked with
    | none => .ok db.watch.length
    | some b => .ok (db.watch.filter fun r => r.autoTracked == b).length

def clearWatch (env : Env) : M ℕ := do
  let count ← countWatch env none
  statement env .clearWatch fun _ db => .ok ((), db.deleteWatch fun _ => true, [])
  return count

/-- LIMIT and OFFSET: a negative number is refused. -/
def window {α : Type} (limit offset : ℤ) (rows : List α) : Except PyErr (List α) := do
  int8 limit
  int8 offset
  if limit < 0 ∨ offset < 0 then .error .database
  else return (rows.drop offset.toNat).take limit.toNat

def listWatch (env : Env) (limit offset : ℤ) (autoTracked : Option Bool) :
    M (List MarketWatch) :=
  query env .listWatch fun _ db =>
    let rows := match autoTracked with
      | none => db.watch
      | some b => db.watch.filter fun r => r.autoTracked == b
    window limit offset (rows.insertionSort fun a b => a.aoid ≤ b.aoid)

/-- `GREATEST(last_polled, first_seen)`. -/
def lastActivity (r : MarketWatch) : ℤ :=
  match r.lastPolled with
  | none => r.firstSeen
  | some t => max t r.firstSeen

def expireStaleWatch (env : Env) (cutoff : ℤ) : M (List ℤ) := do
  let aoids ← query env .selectStale fun _ db =>
    .ok ((db.watch.filter fun r => !r.autoTracked && decide (lastActivity r < cutoff)).map
      MarketWatch.aoid)
  if aoids ≠ [] then
    statement env .deleteStale fun _ db => .ok ((), db.deleteWatch fun r => aoids.contains r.aoid, [])
  return aoids

/-- `-infinity` comes before every time. -/
def polledBefore (r : MarketWatch) (cutoff : ℤ) : Bool :=
  match r.lastPolled with
  | none => true
  | some t => t < cutoff

def polledNoLater (a b : MarketWatch) : Bool :=
  match a.lastPolled, b.lastPolled with
  | none, _ => true
  | some _, none => false
  | some s, some t => s ≤ t

/-- The tick is that of the select, with which a transaction begins. -/
def dueForPoll (env : Env) (cutoff batchSize : ℤ) : M (ℕ × List MarketWatch) :=
  query env .dueForPoll fun tick db => do
    let rows := env.watchOrder tick (db.watch.filter fun r => polledBefore r cutoff)
    let due ← window batchSize 0 (rows.insertionSort fun a b => polledNoLater a b)
    return (tick, due)

def updateLastPolled (env : Env) (aoid ts : ℤ) : M Unit :=
  statement env .updateLastPolled fun _ db =>
    .ok ((), db.updateWatch (fun r => r.aoid == aoid) (fun r => { r with lastPolled := some ts })
      fun _ => rfl, [])

def unflagAutotrackNotIn (env : Env) (keepAoids : List ℤ) : M Unit :=
  statement env .unflagAutotrack fun _ db => do
    keepAoids.forM int8
    return ((), db.updateWatch (fun r => r.autoTracked && !keepAoids.contains r.aoid)
      (fun r => { r with autoTracked := false }) fun _ => rfl, [])

def existingAoids (env : Env) (aoids : List ℤ) : M (List ℤ) := do
  if aoids = [] then
    return []
  query env .existingAoids fun _ db => do
    aoids.forM int8
    return (db.watch.map MarketWatch.aoid).filter fun a => aoids.contains a

/-! market_history -/

/-- A value bound to a nullable bigint column. -/
def bigintColumn (env : Env) (v : PyVal) : Except PyErr (Option ℤ) :=
  match v, v.num? with
  | .none, _ => .ok none
  | _, some n =>
    match env.bigint n with
    | some k => .ok (some k)
    | none => .error .database
  | _, none => .error .database

/-- A value bound to a numeric column. -/
def numericColumn (env : Env) : PyNum → Except PyErr Unit
  | .int _ => .ok ()
  | .float x => if env.numeric x then .ok () else .error .database

/-- `ts` is `now()`, the time the transaction began: at the tick `began` of an earlier
statement, or with this one. `cycle` only names the poll cycle in the log. -/
def insertSnapshot (env : Env) (cycle : ℤ) (began : Option ℕ) (aoid : ℤ) (sellCount buyCount : ℕ)
    (minSellPrice maxBuyPrice : PyVal) (avgSellPrice avgBuyPrice : PyNum)
    (anchorSellCount anchorBuyCount : ℕ) : M Unit :=
  statement env .insertSnapshot fun tick db => do
    let minSell ← bigintColumn env minSellPrice
    let maxBuy ← bigintColumn env maxBuyPrice
    numericColumn env avgSellPrice
    numericColumn env avgBuyPrice
    let db ← orRefused (db.insertHistory
      { aoid := aoid, ts := env.clock (began.getD tick), sellCount := sellCount, buyCount := buyCount,
        minSellPrice := minSell, maxBuyPrice := maxBuy, avgSellPrice := avgSellPrice,
        avgBuyPrice := avgBuyPrice, anchorSellCount := anchorSellCount,
        anchorBuyCount := anchorBuyCount })
    return ((), db, [.snapshot aoid cycle])

def pruneHistory (env : Env) (cutoff : ℤ) : M Unit :=
  statement env .pruneHistory fun _ db => .ok ((), db.deleteHistory fun r => r.ts < cutoff, [])

/-! market_subscriptions -/

def getSubscription (env : Env) (player : String) (aoid : ℤ) : M (Option MarketSubscription) :=
  query env .getSubscription fun _ db => do
    text env player
    int8 aoid
    return lookup MarketSubscription.key (player, aoid) db.subscriptions

def countSubscriptions (env : Env) (player : String) : M ℕ :=
  query env .countSubscriptions fun _ db => do
    text env player
    return (subscriptionsOf db player).length

def addSubscription (env : Env) (player : String) (aoid : ℤ) : M Unit :=
  statement env .addSubscription fun tick db => do
    let db ← orRefused (db.insertSubscription
      { player := player, aoid := aoid, createdAt := env.clock tick })
    return ((), db, [])

def deleteSubscription (env : Env) (player : String) (aoid : ℤ) : M Bool :=
  statement env .deleteSubscription fun _ db => do
    text env player
    int8 aoid
    return (db.subscriptions.any fun s => s.key == (player, aoid),
      db.deleteSubscriptions fun s => s.key == (player, aoid), [])

def deleteAllSubscriptions (env : Env) (player : String) : M ℕ := do
  let count ← countSubscriptions env player
  statement env .deleteAllSubscriptions fun _ db =>
    .ok ((), db.deleteSubscriptions fun s => s.player == player, [])
  return count

def listSubscriptions (env : Env) (player : String) : M (List MarketSubscription) :=
  query env .listSubscriptions fun tick db => do
    text env player
    return (env.rowOrder tick (subscriptionsOf db player)).insertionSort
      fun a b => a.createdAt ≤ b.createdAt

def updateFilter (env : Env) (player : String) (aoid : ℤ)
    (check : Except PyErr Unit) (f : MarketSubscription → MarketSubscription)
    (hf : ∀ r, (f r).key = r.key) : M Unit :=
  statement env .updateFilter fun _ db => do
    check
    text env player
    int8 aoid
    return ((), db.updateSubscriptions (fun s => s.key == (player, aoid)) f hf, [])

def updatePriceFilter (env : Env) (player : String) (aoid : ℤ)
    (minPrice maxPrice : Option ℤ) : M Unit :=
  updateFilter env player aoid (do int8 (minPrice.getD 0); int8 (maxPrice.getD 0))
    (fun s => { s with minPrice := minPrice, maxPrice := maxPrice }) fun _ => rfl

def updateQlFilter (env : Env) (player : String) (aoid : ℤ) (minQl maxQl : Option ℤ) : M Unit :=
  updateFilter env player aoid (do int4 (minQl.getD 0); int4 (maxQl.getD 0))
    (fun s => { s with minQl := minQl, maxQl := maxQl }) fun _ => rfl

def clearFilter (env : Env) (player : String) (aoid : ℤ) : M Unit :=
  updateFilter env player aoid (.ok ())
    (fun s => { s with minPrice := none, maxPrice := none, minQl := none, maxQl := none })
    fun _ => rfl

def subscribersForAoid (env : Env) (aoid : ℤ) (note : List Event) : M (List MarketSubscription) :=
  query env .subscribersForAoid
    (fun tick db => .ok (env.rowOrder tick (db.subscriptions.filter fun s => s.aoid == aoid))) note

/-! market_seen_orders -/

def seenFingerprints (db : Db) (aoid : ℤ) : List String :=
  (db.seenOrders.filter fun r => r.aoid == aoid).map MarketSeenOrder.fingerprint

def getSeenFingerprints (env : Env) (aoid : ℤ) : M (List String) :=
  query env .getSeen fun _ db => .ok (seenFingerprints db aoid)

def replaceSeenFingerprints (env : Env) (aoid : ℤ) (fingerprints : List String) : M Unit :=
  statement env .replaceSeen fun _ db => do
    fingerprints.forM (text env)
    return ((), db.replaceSeen aoid fingerprints, [.replaced aoid fingerprints])

theorem seen_replaceSeen (db : Db) (aoid : ℤ) (fingerprints : List String) :
    seenFingerprints (db.replaceSeen aoid fingerprints) aoid = fingerprints.dedup := by
  have hold : (deleteRows (fun r => r.aoid == aoid) db.seenOrders).filter
      (fun r => r.aoid == aoid) = [] := by
    apply List.filter_eq_nil_iff.mpr
    intro r hr
    simpa using (mem_deleteRows.mp hr).2
  simp [seenFingerprints, Db.replaceSeen, hold, List.filter_map, Function.comp_def]

theorem seen_replaceSeen_of_ne {other aoid : ℤ} (h : other ≠ aoid) (db : Db)
    (fingerprints : List String) :
    seenFingerprints (db.replaceSeen other fingerprints) aoid = seenFingerprints db aoid := by
  have hold : (deleteRows (fun r => r.aoid == other) db.seenOrders).filter
      (fun r => r.aoid == aoid) = db.seenOrders.filter fun r => r.aoid == aoid := by
    apply filter_deleteRows
    intro r _ hr
    have haoid : r.aoid = aoid := by simpa using hr
    simpa [haoid] using Ne.symm h
  simp [seenFingerprints, Db.replaceSeen, hold, List.filter_map, Function.comp_def, h]

/-! market_pending_alerts -/

def queuePendingAlert (env : Env) (player : String) (aoid : ℤ) (message : String)
    (note : List Event) : M Unit :=
  statement env .queueAlert fun tick db => do
    text env message
    return ((), db.insertAlert player aoid message (env.clock tick), note)

def popPendingAlerts (env : Env) (player : String) : M (List MarketPendingAlert) := do
  let alerts ← query env .selectAlerts fun _ db => do
    text env player
    return (db.pendingAlerts.filter fun a => a.player == player).insertionSort
      fun a b => a.createdAt ≤ b.createdAt
  if alerts ≠ [] then
    statement env .deleteAlerts fun _ db =>
      .ok ((), db.deleteAlerts fun a => (alerts.map MarketPendingAlert.id).contains a.id, [])
  return alerts

/-! market_user_actions -/

def logAction (env : Env) (player action : String) (aoid : Option ℤ) : M Unit :=
  statement env .logAction fun tick db => do
    text env player
    int8 (aoid.getD 0)
    return ((), db.insertAction
      { player := player, action := action, aoid := aoid, createdAt := env.clock tick }, [])

def actionsOf (db : Db) (player : String) : List MarketUserAction :=
  db.userActions.filter fun a => a.player == player

def userActionSummary (env : Env) (player : String) : M (ℕ × Option ℤ) :=
  query env .actionSummary fun _ db => do
    text env player
    let rows := actionsOf db player
    return (rows.length, (rows.map MarketUserAction.createdAt).min?)

def userActionBreakdown (env : Env) (player : String) : M (List (String × ℕ)) :=
  query env .actionBreakdown fun tick db => do
    text env player
    let actions := (actionsOf db player).map MarketUserAction.action
    return ((env.groupOrder tick actions.dedup).map fun a => (a, actions.count a)).insertionSort
      fun a b => b.2 ≤ a.2

end AoMarket.MarketRepo
