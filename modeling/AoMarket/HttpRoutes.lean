import AoMarket.AutoTrack
import AoMarket.Polling

/-!
api/: every route with its dependencies. A request's dependencies are resolved
before its handler runs; an HTTPException ends the request with a response, and a
MarketError becomes one in the handler of app.py.
-/

namespace AoMarket.HttpRoutes

open Coroutine Models OrderBook PyText Environment SettingsRepo AuthService
open MarketService Polling Rendering

/-- bot/runner.py's handle, and what the bot thread shows of itself. -/
structure BotHandle where
  ready : Bool
  character : Option (String × ℕ)
  lastPollAt : Option ℤ
  lastAutotrackAt : Option ℤ
deriving DecidableEq, Repr

/-- `app.state`; `searchPage` is the item service's answer to a page of a search. -/
structure App where
  env : Env
  searchPage : ℕ → String → Option ℤ → ℤ → ℤ → Except PyErr (List Item × ℤ)
  bot : Option BotHandle

inductive Request where
  | healthz
  | readyz
  | listSettings
  | getSetting (key : String)
  | updateSetting (key : String) (value : SettingValue)
  | searchItems (q : String) (ql : Option ℤ) (limit offset : ℤ)
  | getItem (aoid : ℤ)
  | listWatch (limit offset : ℤ) (autoTracked : Option Bool)
  | getWatch (aoid : ℤ)
  | startWatching (aoid : ℤ)
  | stopTracking (aoid : ℤ)
  | getOrders (aoid : ℤ)
  | getPlayer (player : String)
  | register (player : String)
  | unregister (player : String) (confirm : Bool)
  | getWatchlist (player : String)
  | subscribe (player : String) (aoid : ℤ)
  | unsubscribe (player : String) (aoid : ℤ)
  | bulkUnsubscribe (player : String) (aoids : List ℤ)
  | unsubscribeAll (player : String) (confirm : Bool)
  | getFilter (player : String) (aoid : ℤ)
  | updateFilter (player : String) (aoid : ℤ) (priceSpec qlSpec : Option String)
  | clearFilter (player : String) (aoid : ℤ)
  | getStats (player : String)
  | untrackAll (confirm : Bool)
  | adminGetStats (player : String)
  | statusSummary
  | statusDetails (limit offset : ℤ)
  | botStatus
  | triggerPoll
  | triggerAutotrack
  | sendTell (player message : String)
deriving DecidableEq

inductive Body where
  | health (dbOk botConnected : Bool) (characterName : Option String) (timestamp : ℤ)
  | ready (ready : Bool)
  | settings (values : List (String × SettingValue))
  | setting (key : String) (value : SettingValue)
  | items (items : List Item) (total : ℤ)
  | item (item : Item)
  | watchItems (rows : List MarketWatch)
  | watchItem (row : MarketWatch)
  | orders (orders : Orders)
  | registered (player : String) (registered : Bool)
  | unregistered (player : String) (subscriptionsRemoved : ℕ)
  | watchlist (subs : List MarketSubscription)
  | subscription (sub : MarketSubscription)
  | bulkUnwatch (removed notWatched : List ℤ)
  | unwatched (player : String) (unwatched : ℕ)
  | userStats (player : String) (stats : UserStats)
  | cleared (cleared : ℕ)
  | status (summary : StatusSummary)
  | botStatus (connected : Bool) (character : Option (String × ℕ))
      (lastPollAt lastAutotrackAt : Option ℤ)
  | triggered
  | sent
  | noContent

inductive Response where
  | ok (body : Body)
  | error (status : ℕ) (detail : String)

/-! auth_deps.py -/

def authenticate (env : Env) (xApiKey : Option String) : M (Except Response ApiKeyPrincipal) := do
  match xApiKey with
  | none => return .error (.error 401 "missing X-Api-Key header")
  | some raw =>
    if raw = "" then
      return .error (.error 401 "missing X-Api-Key header")
    match ← AuthService.authenticate env raw with
    | none => return .error (.error 401 "invalid or revoked API key")
    | some principal => return .ok principal

def requireAdminKey (env : Env) (xApiKey : Option String) :
    M (Except Response ApiKeyPrincipal) := do
  match ← authenticate env xApiKey with
  | .error response => return .error response
  | .ok principal =>
    if !principal.isAdmin then
      return .error (.error 403 "admin API key required")
    return .ok principal

def requirePlayerKey (env : Env) (xApiKey : Option String) (player : String) :
    M (Except Response ApiKeyPrincipal) := do
  match ← authenticate env xApiKey with
  | .error response => return .error response
  | .ok principal =>
    if !principal.isAdmin && principal.player ≠ player then
      return .error (.error 403 "API key is not scoped to this player")
    return .ok principal

inductive Guard where
  | anyone
  | admin
  | player (player : String)
deriving DecidableEq, Repr

/-- The key dependency in the decorator of each route. -/
def guardOf : Request → Guard
  | .updateSetting _ _ | .startWatching _ | .stopTracking _ | .untrackAll _ | .triggerPoll
  | .triggerAutotrack | .sendTell _ _ => .admin
  | .unregister player _ | .subscribe player _ | .unsubscribe player _ | .bulkUnsubscribe player _
  | .unsubscribeAll player _ | .updateFilter player _ _ _ | .clearFilter player _ => .player player
  | _ => .anyone

/-- The response that stops the request, if its guard does. -/
def checkGuard (env : Env) (xApiKey : Option String) : Guard → M (Option Response)
  | .anyone => pure none
  | .admin => do
    match ← requireAdminKey env xApiKey with
    | .error response => return some response
    | .ok _ => return none
  | .player player => do
    match ← requirePlayerKey env xApiKey player with
    | .error response => return some response
    | .ok _ => return none

/-! routes/ -/

def badRequest : Response := .error 400 "destructive action requires confirm=true"

def botNotReady : Response := .error 503 "bot is not connected yet"

def App.connected (app : App) : Bool :=
  match app.bot with
  | some handle => handle.ready
  | none => false

def healthz (app : App) : M Response := do
  let dbOk ← tryCatch (do query app.env .selectOne (fun _ _ => .ok ()); return true)
    fun _ => return false
  let name := if app.connected then (app.bot.bind BotHandle.character).map Prod.fst else none
  let now ← external .clock fun tick => .ok (app.env.clock tick)
  return .ok (.health dbOk app.connected name now)

/-- `except UnknownSettingError: raise HTTPException(...)`. -/
def orUnknownSetting (env : Env) (key : String) (p : M Response) : M Response :=
  tryCatch p fun
    | .unknownSetting _ => pure (.error 404 s!"unknown setting {PyText.repr env.py key}")
    | e => throw e

def getSetting (env : Env) (key : String) : M Response :=
  orUnknownSetting env key do
    let value ← get env key
    return .ok (.setting key value)

def updateSetting (env : Env) (key : String) (value : SettingValue) : M Response :=
  orUnknownSetting env key do
    set env key value
    let stored ← get env key
    return .ok (.setting key stored)

def getItem (env : Env) (aoid : ℤ) : M Response := do
  match ← MarketService.getItem env aoid with
  | none => return .error 404 s!"unknown item aoid {aoid}"
  | some item => return .ok (.item item)

def notTracked (aoid : ℤ) : Response := .error 404 s!"aoid {aoid} is not currently tracked"

def getWatch (env : Env) (aoid : ℤ) : M Response := do
  match ← MarketRepo.getWatch env aoid with
  | none => return notTracked aoid
  | some row => return .ok (.watchItem row)

def startWatching (env : Env) (aoid : ℤ) : M Response := do
  match ← MarketService.getItem env aoid with
  | none => throw (.market (.unknownItem aoid))
  | some item =>
    let _ ← watchItem env aoid item.name item.ql item.icon false
    return .ok (.item item)

def stopTracking (env : Env) (aoid : ℤ) : M Response := do
  let deleted ← MarketRepo.deleteWatch env aoid
  if !deleted then
    return notTracked aoid
  return .ok .noContent

def getOrders (env : Env) (aoid : ℤ) : M Response := do
  match ← external .getOrders fun tick => env.getOrders tick aoid with
  | none => return .error 502 "market data currently unavailable"
  | some orders => return .ok (.orders orders)

def register (env : Env) (player : String) : M Response := do
  MarketService.register env player
  return .ok (.registered player true)

def unregister (env : Env) (player : String) (confirm : Bool) : M Response := do
  if !confirm then
    return badRequest
  let removed ← MarketService.unregister env player
  return .ok (.unregistered player removed)

def subscribe (env : Env) (player : String) (aoid : ℤ) : M Response := do
  let item ← MarketService.subscribe env player aoid
  return .ok (.item item)

def unsubscribe (env : Env) (player : String) (aoid : ℤ) : M Response := do
  let deleted ← MarketService.unsubscribe env player aoid
  if !deleted then
    return .error 404 s!"{player} is not watching aoid {aoid}"
  return .ok .noContent

def sorted (aoids : List ℤ) : List ℤ := aoids.insertionSort fun a b => a ≤ b

def bulkUnsubscribe (env : Env) (player : String) (aoids : List ℤ) : M Response := do
  let (removed, notWatched) ← unsubscribeBulk env player aoids
  return .ok (.bulkUnwatch (sorted removed) (sorted notWatched))

def unsubscribeAll (env : Env) (player : String) (confirm : Bool) : M Response := do
  if !confirm then
    return badRequest
  let count ← MarketService.unsubscribeAll env player
  return .ok (.unwatched player count)

def getFilter (env : Env) (player : String) (aoid : ℤ) : M Response := do
  let sub ← MarketService.getFilter env player aoid
  return .ok (.subscription sub)

def updateFilter (env : Env) (player : String) (aoid : ℤ) (priceSpec qlSpec : Option String) :
    M Response := do
  match priceSpec with
  | some spec => setPriceFilter env player aoid spec
  | none => pure ()
  match qlSpec with
  | some spec => setQlFilter env player aoid spec
  | none => pure ()
  let sub ← MarketService.getFilter env player aoid
  return .ok (.subscription sub)

def clearFilter (env : Env) (player : String) (aoid : ℤ) : M Response := do
  MarketService.clearFilter env player aoid
  let sub ← MarketService.getFilter env player aoid
  return .ok (.subscription sub)

/-- get_stats and admin_get_stats differ in the text of their 404. -/
def statsOr (env : Env) (player detail : String) : M Response := do
  match ← userStats env player with
  | none => return .error 404 detail
  | some stats => return .ok (.userStats player stats)

def untrackAll (env : Env) (confirm : Bool) : M Response := do
  if !confirm then
    return badRequest
  let cleared ← MarketService.untrackAll env
  return .ok (.cleared cleared)

def onBot (app : App) {α : Type} (p : M α) (done : Body) : M Response := do
  if !app.connected then
    return botNotReady
  let _ ← p
  return .ok done

def handler (app : App) : Request → M Response
  | .healthz => healthz app
  | .readyz => pure (.ok (.ready app.connected))
  | .listSettings => do return .ok (.settings (← all app.env))
  | .getSetting key => getSetting app.env key
  | .updateSetting key value => updateSetting app.env key value
  | .searchItems q ql limit offset => do
    let (items, total) ← external .searchItems fun tick => app.searchPage tick q ql limit offset
    return .ok (.items items total)
  | .getItem aoid => getItem app.env aoid
  | .listWatch limit offset autoTracked => do
    return .ok (.watchItems (← MarketRepo.listWatch app.env limit offset autoTracked))
  | .getWatch aoid => getWatch app.env aoid
  | .startWatching aoid => startWatching app.env aoid
  | .stopTracking aoid => stopTracking app.env aoid
  | .getOrders aoid => getOrders app.env aoid
  | .getPlayer player => do
    return .ok (.registered player (← MarketRepo.isRegistered app.env player))
  | .register player => register app.env player
  | .unregister player confirm => unregister app.env player confirm
  | .getWatchlist player => do
    return .ok (.watchlist (← MarketRepo.listSubscriptions app.env player))
  | .subscribe player aoid => subscribe app.env player aoid
  | .unsubscribe player aoid => unsubscribe app.env player aoid
  | .bulkUnsubscribe player aoids => bulkUnsubscribe app.env player aoids
  | .unsubscribeAll player confirm => unsubscribeAll app.env player confirm
  | .getFilter player aoid => getFilter app.env player aoid
  | .updateFilter player aoid priceSpec qlSpec =>
    updateFilter app.env player aoid priceSpec qlSpec
  | .clearFilter player aoid => clearFilter app.env player aoid
  | .getStats player =>
    statsOr app.env player s!"{player} has no recorded Market activity"
  | .untrackAll confirm => untrackAll app.env confirm
  | .adminGetStats player => statsOr app.env player player
  | .statusSummary => do return .ok (.status (← MarketService.statusSummary app.env))
  | .statusDetails limit offset => do
    return .ok (.watchItems (← MarketService.statusDetails app.env limit offset))
  | .botStatus =>
    let shown (f : BotHandle → Option ℤ) := if app.connected then app.bot.bind f else none
    pure (.ok (.botStatus app.connected
      (if app.connected then app.bot.bind BotHandle.character else none)
      (shown BotHandle.lastPollAt) (shown BotHandle.lastAutotrackAt)))
  | .triggerPoll => onBot app (pollMarket app.env) .triggered
  | .triggerAutotrack => onBot app (AutoTrack.syncTopTradedItems app.env) .triggered
  | .sendTell player message => onBot app (sendTell app.env player message []) .sent

/-! app.py -/

def statusCodeFor : MarketError → ℕ
  | .unknownItem _ | .notWatching _ => 404
  | .alreadyRegistered _ | .alreadyWatching _ | .subscriptionLimit _ => 409
  | .notRegistered _ => 400
  | .invalidRange _ => 422

/-- `str(exc)`. -/
def errorDetail : MarketError → String
  | .unknownItem aoid => s!"unknown item aoid {aoid}"
  | .alreadyRegistered player | .notRegistered player => player
  | .alreadyWatching aoid => s!"already watching aoid {aoid}"
  | .notWatching aoid => s!"not watching aoid {aoid}"
  | .subscriptionLimit limit => s!"subscription limit of {limit} reached"
  | .invalidRange spec => spec

def marketErrorHandler : PyErr → M Response
  | .market e => pure (.error (statusCodeFor e) (errorDetail e))
  | e => throw e

def serve (app : App) (xApiKey : Option String) (request : Request) : M Response :=
  tryCatch (do
    match ← checkGuard app.env xApiKey (guardOf request) with
    | some response => return response
    | none => handler app request) marketErrorHandler

end AoMarket.HttpRoutes
