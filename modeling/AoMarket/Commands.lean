import AoMarket.Polling

/-!
market/commands.py: the ordered patterns of the `market` command, the handler of
each and the texts of the replies. The first pattern that matches decides.
-/

namespace AoMarket.Commands

open Coroutine Models PyNumber PyText Regex Environment SettingsRepo Rendering

inductive Command where
  | register | unregister | untrackAll
  | apikeyGenerate | apikeyRevoke | apikeyList
  | statusDetails | status | watchlist | userStats
  | filterPrice | filterQl | filterClear | filterShow
  | unwatchAll | unwatchBulk | unwatch
  | watchAoid | watchSearch | overview | search
deriving DecidableEq, Repr

/-- `^(?:market|mkt)\s+`. -/
def commandPrefix : List Re := [.alt (word "market") (word "mkt"), space.plus]

/-- `\s*$`. -/
def finish : List Re := [.star space, .dollar]

/-- `(?:\s+(confirm))?`. -/
def confirm : Re := .opt (.seq space.plus (.group 1 (word "confirm")))

/-- `([0-9]+)`. -/
def number : Re := .group 1 digit.plus

/-- `[\s,]+`. -/
def separator : Re := (Re.char fun c => isSpace c || c == ',').plus

def pattern (body : List Re) : Re := .all (commandPrefix ++ body)

def patterns : List (Command × Re) :=
  [(.register, pattern ([word "register"] ++ finish)),
   (.unregister, pattern ([word "unregister", confirm] ++ finish)),
   (.untrackAll, pattern ([word "untrack", space.plus, word "all", confirm] ++ finish)),
   (.apikeyGenerate, pattern ([word "apikey", space.plus, word "generate"] ++ finish)),
   (.apikeyRevoke, pattern ([word "apikey", space.plus, word "revoke", confirm] ++ finish)),
   (.apikeyList, pattern ([word "apikey", space.plus, word "list"] ++ finish)),
   (.statusDetails, pattern ([word "status", space.plus, word "details"] ++ finish)),
   (.status, pattern ([word "status"] ++ finish)),
   (.watchlist, pattern ([word "watchlist"] ++ finish)),
   (.userStats, pattern [word "user", space.plus, word "stats", .star space,
     .group 1 (.star dot), .dollar]),
   (.filterPrice, pattern [word "filter", space.plus, word "price", space.plus, number,
     space.plus, .group 2 dot.plus, .dollar]),
   (.filterQl, pattern [word "filter", space.plus, word "ql", space.plus, number,
     space.plus, .group 2 dot.plus, .dollar]),
   (.filterClear, pattern ([word "filter", space.plus, word "clear", space.plus, number] ++
     finish)),
   (.filterShow, pattern ([word "filter", space.plus, number] ++ finish)),
   (.unwatchAll, pattern ([word "unwatch", space.plus, word "all", confirm] ++ finish)),
   (.unwatchBulk, pattern ([word "unwatch", space.plus,
     .group 1 (.seq digit.plus (Re.plus (.seq separator digit.plus)))] ++ finish)),
   (.unwatch, pattern ([word "unwatch", space.plus, number] ++ finish)),
   (.watchAoid, pattern ([word "watch", space.plus, number] ++ finish)),
   (.watchSearch, pattern [word "watch", space.plus, .group 1 dot.plus, .dollar]),
   (.overview, pattern ([number] ++ finish)),
   (.search, pattern [.group 1 dot.plus, .dollar])]

/-- The loop of handle_command over the patterns. -/
def selectCommand (msg : String) : Option (Command × Groups) :=
  patterns.findSome? fun p => (p.2.matchStart msg).map fun gs => (p.1, gs)

def textOf (gs : Groups) (n : ℕ) : String := (groupOf gs n).getD ""

/-- `match.group(1) and match.group(1).lower() == "confirm"`. -/
def confirmed (gs : Groups) : Bool := lower (textOf gs 1) == "confirm"

def parseAoid (env : Env) (digits : String) : M ℤ :=
  match parseInt env.py.decimal digits with
  | some n => pure n
  | none => throw (.value (intError env.py digits))

/-- `re.split(r"[\s,]+", s)` on a text that neither starts nor ends with a separator. -/
def splitNumbers (s : String) : List String :=
  let p (c : Char) : Bool := isSpace c || c == ','
  ((s.toList.splitOnP p).filter fun l => l ≠ []).map String.ofList

/-- `f"{t:%Y-%m-%d}"`, from the days since 1970 (the year starts in March). -/
def dateText (us : ℤ) : String :=
  let z := us / usPerDay + 719468
  let era := z / 146097
  let doe := z % 146097
  let yoe := (doe - doe / 1460 + doe / 36524 - doe / 146096) / 365
  let doy := doe - (365 * yoe + yoe / 4 - yoe / 100)
  let mp := (5 * doy + 2) / 153
  let day := doy - (153 * mp + 2) / 5 + 1
  let month := if mp < 10 then mp + 3 else mp - 9
  let year := yoe + era * 400 + (if month ≤ 2 then 1 else 0)
  let two (n : ℤ) := if n < 10 then s!"0{n}" else toString n
  s!"{year}-{two month}-{two day}"

def keyLine (key : ApiKey) : String :=
  let state := if key.revokedAt.isSome then "revoked" else "active"
  s!"{key.keyPrefix}... - {state}, created {dateText key.createdAt}"

def commaSeparated (ns : List ℤ) : String := ", ".intercalate (ns.map toString)

def dispatch (env : Env) (player : String) (name : Command) (gs : Groups) : M String :=
  match name with
  | .register => do
    MarketService.register env player
    return "You're registered with the Market module. " ++
      "Try 'market watch <item>' to build a watchlist."
  | .unregister => do
    if !confirmed gs then
      return "This cannot be undone. Confirm with 'market unregister confirm'."
    let removed ← MarketService.unregister env player
    return s!"Unregistered. Removed {removed} watchlist item(s)."
  | .untrackAll => do
    if !confirmed gs then
      return "This cannot be undone. Confirm with 'market untrack all confirm'."
    let cleared ← MarketService.untrackAll env
    return s!"Cleared {cleared} tracked item(s)."
  | .apikeyGenerate => do
    let raw ← AuthService.generateKey env player
    return s!"Your new API key: {raw}\n" ++
      "Save this now - it will not be shown again. Send it as the " ++
      s!"X-Api-Key header on write requests to your own /players/{player}/... " ++
      "endpoints. Generating a new key revokes any previous one."
  | .apikeyRevoke => do
    if !confirmed gs then
      return "This will disable your current key immediately. " ++
        "Confirm with 'market apikey revoke confirm'."
    let count ← AuthService.revokeKeys env player
    return if count ≠ 0 then s!"Revoked {count} active key(s)." else "You have no active keys."
  | .apikeyList => do
    let keys ← AuthService.listKeys env player
    if keys = [] then
      return "You have no API keys. Generate one with 'market apikey generate'."
    return "Your API keys:\n" ++ lines (keys.map keyLine)
  | .statusDetails => do
    let rows ← MarketService.statusDetails env 500 0
    return renderStatusSummary (← MarketService.statusSummary env) ++
      s!"\n{rows.length} item(s) tracked."
  | .status => do
    return renderStatusSummary (← MarketService.statusSummary env)
  | .watchlist => do
    let rows ← MarketRepo.listSubscriptions env player
    Coro.ofExcept (renderWatchlist env.py rows)
  | .userStats => do
    let named := strip (textOf gs 1)
    let target := if named = "" then player else named
    match ← MarketService.userStats env target with
    | none => return s!"{target} has no recorded Market activity."
    | some stats => return renderUserStats target stats
  | .filterPrice => do
    let aoid ← parseAoid env (textOf gs 1)
    MarketService.setPriceFilter env player aoid (strip (textOf gs 2))
    let sub ← MarketService.getFilter env player aoid
    return "Price filter updated. " ++ (← Coro.ofExcept (describeSubscription env.py sub))
  | .filterQl => do
    let aoid ← parseAoid env (textOf gs 1)
    MarketService.setQlFilter env player aoid (strip (textOf gs 2))
    let sub ← MarketService.getFilter env player aoid
    return "QL filter updated. " ++ (← Coro.ofExcept (describeSubscription env.py sub))
  | .filterClear => do
    let aoid ← parseAoid env (textOf gs 1)
    MarketService.clearFilter env player aoid
    return "Filter cleared - you'll be notified of every new order again."
  | .filterShow => do
    let aoid ← parseAoid env (textOf gs 1)
    let sub ← MarketService.getFilter env player aoid
    Coro.ofExcept (describeSubscription env.py sub)
  | .unwatchAll => do
    if !confirmed gs then
      return "This cannot be undone. Confirm with 'market unwatch all confirm'."
    let count ← MarketService.unsubscribeAll env player
    return s!"Stopped watching all {count} item(s)."
  | .unwatchBulk => do
    let aoids ← (splitNumbers (strip (textOf gs 1))).mapM (parseAoid env)
    let (removed, notWatched) ← MarketService.unsubscribeBulk env player aoids
    let stopped := if removed = [] then []
      else [s!"Stopped watching {removed.length} item(s): {commaSeparated removed}."]
    let missing := if notWatched = [] then []
      else [s!"Not on your watchlist: {commaSeparated notWatched}."]
    return lines (stopped ++ missing)
  | .unwatch => do
    let aoid ← parseAoid env (textOf gs 1)
    let deleted ← MarketService.unsubscribe env player aoid
    return if deleted then s!"Stopped watching aoid {aoid}."
      else s!"You weren't watching aoid {aoid}."
  | .watchAoid => do
    let aoid ← parseAoid env (textOf gs 1)
    let item ← MarketService.subscribe env player aoid
    return s!"You're now watching {item.name} (QL{item.ql}) - " ++
      "you'll get a tell when a new order shows up."
  | .watchSearch | .search => do
    let items ← external .searchItems fun tick => env.searchItems tick (strip (textOf gs 1))
    return renderSearchResults items
  | .overview => do
    let aoid ← parseAoid env (textOf gs 1)
    match ← MarketService.getItem env aoid with
    | none => return s!"Unknown item ID {aoid}. Try 'market <item name>' to search first."
    | some item =>
      let _ ← MarketService.watchItem env aoid item.name item.ql item.icon false
      let orders ← external .getOrders fun tick => env.getOrders tick aoid
      Coro.ofExcept (renderOverview env.py item.name aoid item.ql orders)

def formatError (py : Runtime) : MarketError → String
  | .unknownItem aoid => s!"Unknown item ID {aoid}. Try 'market <item name>' to search first."
  | .notRegistered _ => "You need to register first - try 'market register'."
  | .alreadyRegistered _ => "You're already registered."
  | .alreadyWatching aoid => s!"You're already watching aoid {aoid}."
  | .notWatching aoid =>
    s!"You're not watching aoid {aoid} - try 'market watch {aoid}' first."
  | .subscriptionLimit limit => s!"You're already watching the maximum of {limit} item(s)."
  | .invalidRange spec => s!"Couldn't parse range {PyText.repr py spec}."

def usage : String :=
  "Usage: market <item name> | market <aoid> | market status | market register | " ++
  "market watch <item> | market unwatch <aoid> | market watchlist | market apikey generate | " ++
  "market help"

def dispatchReply (env : Env) (player : String) (name : Command) (gs : Groups) : M String :=
  tryCatch (dispatch env player name gs) fun
    | .market e => pure (formatError env.py e)
    | e => throw e

def handleCommand (env : Env) (player msg : String) : M String := do
  if !(← getBool env "Enabled") then
    return "The Market module is currently disabled."
  match selectCommand msg with
  | some (name, gs) => dispatchReply env player name gs
  | none => return usage

end AoMarket.Commands
