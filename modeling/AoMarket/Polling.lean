import AoMarket.MarketService
import AoMarket.PySum

/-!
MarketService.poll_market: expiry, the loop over the due items, the snapshot of a
book, the detection of new orders and the alerts. Nothing separates one item from
the next: an exception in the middle leaves the rest of the cycle undone.
-/

namespace AoMarket.Polling

open Coroutine Models Database OrderBook PyNumber PyText Environment MarketRepo SettingsRepo
  MarketService Rendering

/-! new-order detection and alerts -/

def sendTell (env : Env) (player message : String) (note : List Event) : M Unit :=
  match env.chat.sendTell with
  | some send => external .sendTell (fun tick => send tick player message)
      fun _ => .tell player message :: note
  | none => pure ()

/-- `bound` is compared first, as in `x is not None and order.y < x`. -/
def below (py : Runtime) (v : PyVal) : Option ℤ → Option Bool
  | none => some false
  | some n => v.lt py (.num (.int n))

def above (py : Runtime) (v : PyVal) : Option ℤ → Option Bool
  | none => some false
  | some n => PyVal.lt py (.num (.int n)) v

/-- `none` is TypeError; a bound already broken ends the comparison. -/
def orderMatchesFilter (py : Runtime) (order : NewOrder)
    (minPrice maxPrice minQl maxQl : Option ℤ) : Option Bool := do
  if ← below py order.price minPrice then
    return false
  if ← above py order.price maxPrice then
    return false
  if ← below py order.minQl minQl then
    return false
  if ← above py order.maxQl maxQl then
    return false
  return true

abbrev Fingerprinted := List (String × NewOrder)

/-- `[a for a in l if p(a)]` where `p` may raise TypeError. -/
def filterChecked {α : Type} (p : α → Option Bool) : List α → Option (List α)
  | [] => some []
  | a :: l => do
    let keep ← p a
    let rest ← filterChecked p l
    return if keep then a :: rest else rest

def matching (py : Runtime) (newOrders : Fingerprinted) (sub : MarketSubscription) :
    Option Fingerprinted :=
  filterChecked (fun o =>
    orderMatchesFilter py o.2 sub.minPrice sub.maxPrice sub.minQl sub.maxQl) newOrders

def sideName : Side → String
  | .sell => "Sell"
  | .buy => "Buy"

def orderLine (py : Runtime) (order : NewOrder) : Except PyErr String := do
  let f := PyVal.format py
  let ql := if order.minQl.eq order.maxQl then s!"QL{f order.minQl}"
    else s!"QL{f order.minQl}-{f order.maxQl}"
  return s!" - {sideName order.side}: {← credits py order.price} {ql}"

def formatAlert (py : Runtime) (itemName : String) (aoid : ℤ) (orders : Fingerprinted) :
    Except PyErr String := do
  let rows ← orders.mapM fun o => orderLine py o.2
  return lines ([s!"{orders.length} new order(s) posted for {itemName}:", ""] ++ rows ++
    ["", s!"[market {aoid}]"])

def isOnline (env : Env) (player : String) : M Bool :=
  match env.chat.isOnline with
  | some ask => external .isOnline fun tick => ask tick player
  | none => pure false

/-- One subscriber: a tell when online, a queued alert otherwise. -/
def alertSubscriber (env : Env) (aoid : ℤ) (player message : String) (orders : Fingerprinted) :
    M Unit := do
  if ← isOnline env player then
    sendTell env player message [.alerted player aoid orders true]
  else
    queuePendingAlert env player aoid message [.alerted player aoid orders false]

/-- The loop of notify_subscribers over the subscription rows. -/
def notifyEach (env : Env) (aoid : ℤ) (itemName : String) (newOrders : Fingerprinted) :
    List MarketSubscription → M ℕ
  | [] => pure 0
  | sub :: rest => do
    let orders ← Coro.ofExcept (orTypeError (matching env.py newOrders sub))
    if orders.isEmpty then
      notifyEach env aoid itemName newOrders rest
    else
      let message ← Coro.ofExcept (formatAlert env.py itemName aoid orders)
      alertSubscriber env aoid sub.player message orders
      let notified ← notifyEach env aoid itemName newOrders rest
      return notified + 1

def notifySubscribers (env : Env) (aoid : ℤ) (itemName : String) (newOrders : Fingerprinted) :
    M ℕ := do
  let subs ← subscribersForAoid env aoid [.notified aoid newOrders]
  notifyEach env aoid itemName newOrders subs

/-- `fingerprints - seen`, in the order the set is walked. -/
def newFingerprints (env : Env) (orders : Orders) (seen : List String) : List String :=
  let all := orders.fingerprints env.py
  env.setOrder all (all.filter fun fp => !seen.contains fp)

/-- `[fingerprint_map[fp] for fp in new_fingerprints]`, with the fingerprints. -/
def newOrders (env : Env) (orders : Orders) (seen : List String) : Fingerprinted :=
  (newFingerprints env orders seen).filterMap fun fp =>
    (orders.fingerprintMap env.py fp).map fun o => (fp, o)

def detectNewOrders (env : Env) (aoid : ℤ) (orders : Orders) (itemName : String) : M Unit := do
  let seen ← getSeenFingerprints env aoid
  let isFirstPoll := seen.isEmpty
  if !isFirstPoll then
    if newFingerprints env orders seen ≠ [] then
      let _ ← notifySubscribers env aoid itemName (newOrders env orders seen)
  replaceSeenFingerprints env aoid (orders.fingerprints env.py)

/-! polling -/

/-- `min((o.price for o in orders), default=0)`. -/
def minPrice (py : Runtime) : List PyVal → Option PyVal
  | [] => some (.num (.int 0))
  | v :: rest => PyVal.minFrom py v rest

def maxPrice (py : Runtime) : List PyVal → Option PyVal
  | [] => some (.num (.int 0))
  | v :: rest => PyVal.maxFrom py v rest

/-- `a <= b`; `none` is TypeError. -/
def le (py : Runtime) (a b : PyVal) : Option Bool :=
  match a.num?, b.num? with
  | some x, some y => some (x.le y)
  | _, _ => (PyVal.lt py b a).map fun less => !less

/-- `o.min_ql <= anchor_ql <= o.max_ql`. -/
def anchors (py : Runtime) (anchorQl : PyVal) (o : BuyOrder) : Option Bool := do
  if ← le py o.minQl anchorQl then
    le py anchorQl o.maxQl
  else
    return false

/-- `sum(prices) / len(prices) if prices else 0`. -/
def average (py : Runtime) (prices : List PyVal) : Except PyErr PyNum := do
  if prices = [] then
    return .int 0
  let total ← PySum.sum py prices
  return .float (← PySum.orOverflow (total.divLength prices.length))

structure Summary where
  minSell : PyVal
  maxBuy : PyVal
  avgSell : PyNum
  avgBuy : PyNum
  anchorSellCount : ℕ
  anchorBuyCount : ℕ

def summarize (py : Runtime) (orders : Orders) (anchorQl : ℤ) : Except PyErr Summary := do
  let anchor : PyVal := .num (.int anchorQl)
  let minSell ← orTypeError (minPrice py (orders.sellOrders.map SellOrder.price))
  let maxBuy ← orTypeError (maxPrice py (orders.buyOrders.map BuyOrder.price))
  let anchorSells := orders.sellOrders.filter fun o => o.ql.eq anchor
  let anchorBuys ← orTypeError (filterChecked (anchors py anchor) orders.buyOrders)
  let avgSell ← average py (anchorSells.map SellOrder.price)
  let avgBuy ← average py (anchorBuys.map BuyOrder.price)
  return { minSell := minSell, maxBuy := maxBuy, avgSell := avgSell, avgBuy := avgBuy,
           anchorSellCount := anchorSells.length, anchorBuyCount := anchorBuys.length }

def snapshot (env : Env) (cycle : ℤ) (began : Option ℕ) (aoid : ℤ) (orders : Orders) (anchorQl : ℤ) : M Unit := do
  let s ← Coro.ofExcept (summarize env.py orders anchorQl)
  insertSnapshot env cycle began aoid orders.sellOrders.length orders.buyOrders.length
    s.minSell s.maxBuy s.avgSell s.avgBuy s.anchorSellCount s.anchorBuyCount

def getOrders (env : Env) (aoid : ℤ) : M (Option Orders) :=
  external .getOrders (fun tick => env.getOrders tick aoid) fun
    | some book => [.fetched aoid book]
    | none => []

/-- One turn of the loop over the due items; true when the item was updated. `began` is
the tick at which the session's open transaction began, if it has one. -/
def pollItem (env : Env) (now : ℤ) (began : Option ℕ) (watch : MarketWatch) : M Bool := do
  let orders ← getOrders env watch.aoid
  match orders with
  | some book =>
    snapshot env now began watch.aoid book watch.ql
    detectNewOrders env watch.aoid book watch.name
  | none => pure ()
  updateLastPolled env watch.aoid now
  return orders.isSome

/-- Every turn ends with a commit, so only the first has an open transaction. -/
def pollItems (env : Env) (now : ℤ) : Option ℕ → List MarketWatch → M ℕ
  | _, [] => pure 0
  | began, watch :: rest => do
    let updated ← pollItem env now began watch
    let others ← pollItems env now none rest
    return (if updated then 1 else 0) + others

structure PollSummary where
  dueCount : ℕ
  updatedCount : ℕ
  expiredCount : ℕ
deriving DecidableEq, Repr

/-- `now - timedelta(...)`. -/
def cutoff (now duration : ℤ) : Except PyErr ℤ := do
  match timedelta duration with
  | none => .error .overflow
  | some d =>
    match subTime now d with
    | none => .error .overflow
    | some t => return t

structure Due where
  now : ℤ
  began : ℕ
  items : List MarketWatch
  expired : List ℤ

def selectDue (env : Env) : M Due := do
  let now ← external .clock fun tick => .ok (env.clock tick)
  let retentionDays ← getInt env "HistoryRetentionDays"
  let expireDays ← getInt env "WatchExpireDays"
  let intervalMinutes ← getInt env "PollIntervalMinutes"
  let batchSize ← getInt env "PollBatchSize"
  let stale ← Coro.ofExcept (cutoff now (expireDays * usPerDay))
  let expired ← expireStaleWatch env stale
  let old ← Coro.ofExcept (cutoff now (retentionDays * usPerDay))
  pruneHistory env old
  let polled ← Coro.ofExcept (cutoff now (intervalMinutes * usPerMinute))
  let due ← dueForPoll env polled batchSize
  return { now := now, began := due.1, items := due.2, expired := expired }

def announceCycle (env : Env) (due : Due) (updated : ℕ) : M Unit := do
  if due.items ≠ [] then
    let dropped := if due.expired = [] then ""
      else s!", {due.expired.length} item(s) expired and dropped from tracking"
    announceBackground env
      (s!"Poll cycle complete: {updated}/{due.items.length} item(s) successfully updated" ++
        dropped)

def pollMarket (env : Env) : M PollSummary := do
  let due ← selectDue env
  let updated ← pollItems env due.now (some due.began) due.items
  announceCycle env due updated
  return { dueCount := due.items.length, updatedCount := updated,
           expiredCount := due.expired.length }

def deliverPendingAlerts (env : Env) (player : String) : M ℕ := do
  let alerts ← popPendingAlerts env player
  alerts.forM fun alert => sendTell env player alert.message []
  return alerts.length

end AoMarket.Polling
