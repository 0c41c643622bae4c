import AoMarket.MarketRepo
import AoMarket.SettingsRepo
import AoMarket.Parsing

/-! market/rendering.py: the texts of replies. Prices come from the order service
as they are, so the best price of a book may raise TypeError. -/

namespace AoMarket.Rendering

open Models OrderBook PyNumber PyText Environment SettingsRepo

def lines (l : List String) : String := "\n".intercalate l

/-- `format_credits` of a value of any type. -/
def credits (py : Runtime) (v : PyVal) : Except PyErr String :=
  match v.num? with
  | some n => Parsing.formatCredits double py n
  | none => .error .type

def orTypeError {α : Type} : Option α → Except PyErr α
  | some a => .ok a
  | none => .error .type

def renderSearchResults (items : List Item) : String :=
  if items = [] then "No searchable item(s) found corresponding to your keyword(s)"
  else s!"{items.length} matching item(s):\n" ++
    lines (items.map fun i => s!"{i.name} QL{i.ql} [aoid {i.aoid}]")

def renderSummary (py : Runtime) (orders : Orders) : Except PyErr String := do
  let sell ← match orders.sellOrders with
    | [] => pure "No sell orders"
    | o :: os => do
      let best ← orTypeError (PyVal.minFrom py o.price (os.map SellOrder.price))
      pure s!"Best sell: {← credits py best} ({os.length + 1} sell order(s))"
  let buy ← match orders.buyOrders with
    | [] => pure "No buy orders"
    | o :: os => do
      let best ← orTypeError (PyVal.maxFrom py o.price (os.map BuyOrder.price))
      pure s!"Best buy: {← credits py best} ({os.length + 1} buy order(s))"
  return lines [sell, buy]

def renderOverview (py : Runtime) (itemName : String) (aoid ql : ℤ) (orders : Option Orders) :
    Except PyErr String := do
  let header := s!":: {itemName} :: QL{ql} (aoid {aoid})"
  match orders with
  | none => return s!"{header}\n\nMarket data currently unavailable, please try again later."
  | some orders => return s!"{header}\n\n{← renderSummary py orders}"

def bound {α : Type} (show' : α → Except PyErr String) : Option α → Except PyErr String
  | some a => show' a
  | none => .ok "any"

def describeFilter (py : Runtime) (minPrice maxPrice minQl maxQl : Option ℤ) :
    Except PyErr String := do
  if minPrice = none ∧ maxPrice = none ∧ minQl = none ∧ maxQl = none then
    return "No filter set - you'll be notified of every new order."
  let price (n : ℤ) := Parsing.formatCredits double py (.int n)
  let ql (n : ℤ) : Except PyErr String := .ok (toString n)
  let mut parts : List String := []
  if minPrice ≠ none ∨ maxPrice ≠ none then
    parts := parts ++ [s!"price {← bound price minPrice}-{← bound price maxPrice}"]
  if minQl ≠ none ∨ maxQl ≠ none then
    parts := parts ++ [s!"QL {← bound ql minQl}-{← bound ql maxQl}"]
  return "Filter: " ++ ", ".intercalate parts

def describeSubscription (py : Runtime) (s : MarketSubscription) : Except PyErr String :=
  describeFilter py s.minPrice s.maxPrice s.minQl s.maxQl

def renderWatchlist (py : Runtime) (subscriptions : List MarketSubscription) :
    Except PyErr String := do
  if subscriptions = [] then
    return "Your watchlist is empty. Try 'market watch <item>' to add one."
  let rows ← subscriptions.mapM fun s => do
    return s!"aoid {s.aoid} - {← describeSubscription py s}"
  return s!"{subscriptions.length} item(s) watched:\n" ++ lines rows

structure StatusSummary where
  totalTracked : ℕ
  autoTracked : ℕ
  manuallyTracked : ℤ
  autoTrackEnabled : Bool
  autoTrackCount : ℤ
  autoTrackLastSync : ℤ

def renderStatusSummary (s : StatusSummary) : String :=
  let auto := if s.autoTrackEnabled then "On" else "Off"
  s!"Total tracked: {s.totalTracked} (auto: {s.autoTracked}, manual: {s.manuallyTracked})\n" ++
    s!"Auto-track: {auto} (target {s.autoTrackCount} items)"

def renderSettingsList (py : Runtime) (settings : List (String × SettingValue)) : String :=
  if settings = [] then "No settings found."
  else s!"{settings.length} setting(s):\n" ++
    lines ((settings.insertionSort fun a b => a.1 ≤ b.1).map fun kv =>
      s!"{kv.1} = {kv.2.repr py}")

structure UserStats where
  totalActions : ℕ
  firstSeen : Option ℤ
  activeSubscriptions : ℕ
  byAction : List (String × ℕ)

def renderUserStats (player : String) (stats : UserStats) : String :=
  lines ([s!"Market activity: {player}", s!"Total actions: {stats.totalActions}",
    s!"Active subscriptions: {stats.activeSubscriptions}", ""] ++
    stats.byAction.map fun row => s!"{row.1}: {row.2}")

end AoMarket.Rendering
