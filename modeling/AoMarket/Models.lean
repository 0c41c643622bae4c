import AoMarket.PyNumber
import AoMarket.Relational

/-!
The tables of db/models.py, one structure a table. Times are microseconds; the
`-infinity` default of last_polled is `none`. Columns no query reads
(registered_at, updated_at, side, serial ids of history and subscriptions) are
left out. `Sound` collects the primary keys, unique constraints, foreign keys
and serial columns that the schema declares.
-/

namespace AoMarket.Models

open PyNumber Relational

structure MarketUser where
  player : String
  isAdmin : Bool
deriving DecidableEq, Repr

structure MarketWatch where
  aoid : ℤ
  name : String
  ql : ℤ
  icon : Option ℤ
  firstSeen : ℤ
  lastPolled : Option ℤ
  autoTracked : Bool
deriving DecidableEq, Repr

structure MarketHistory where
  aoid : ℤ
  ts : ℤ
  sellCount : ℕ
  buyCount : ℕ
  minSellPrice : Option ℤ
  maxBuyPrice : Option ℤ
  avgSellPrice : PyNum
  avgBuyPrice : PyNum
  anchorSellCount : ℕ
  anchorBuyCount : ℕ
deriving DecidableEq

structure MarketSubscription where
  player : String
  aoid : ℤ
  minPrice : Option ℤ := none
  maxPrice : Option ℤ := none
  minQl : Option ℤ := none
  maxQl : Option ℤ := none
  createdAt : ℤ
deriving DecidableEq, Repr

structure MarketSeenOrder where
  aoid : ℤ
  fingerprint : String
deriving DecidableEq, Repr

structure MarketPendingAlert where
  id : ℕ
  player : String
  aoid : ℤ
  message : String
  createdAt : ℤ
deriving DecidableEq, Repr

structure MarketUserAction where
  player : String
  action : String
  aoid : Option ℤ
  createdAt : ℤ
deriving DecidableEq, Repr

structure ApiKey where
  id : ℕ
  player : String
  keyHash : String
  keyPrefix : String
  createdAt : ℤ
  revokedAt : Option ℤ := none
  lastUsedAt : Option ℤ := none
deriving DecidableEq, Repr

structure AodbLookupBackoff where
  aoid : ℤ
  failureCount : ℕ
  lastAttemptedAt : ℤ
  nextRetryAt : ℤ
deriving DecidableEq, Repr

/-- `ck_settings_value_type`. -/
inductive ValueType where
  | bool | int | float | str
deriving DecidableEq, Repr

structure Setting where
  key : String
  value : String
  valueType : ValueType
deriving DecidableEq, Repr

structure Tables where
  users : List MarketUser := []
  watch : List MarketWatch := []
  history : List MarketHistory := []
  subscriptions : List MarketSubscription := []
  seenOrders : List MarketSeenOrder := []
  pendingAlerts : List MarketPendingAlert := []
  userActions : List MarketUserAction := []
  apiKeys : List ApiKey := []
  lookupBackoff : List AodbLookupBackoff := []
  settings : List Setting := []
  nextAlertId : ℕ := 0
  nextKeyId : ℕ := 0

/-- `uq_market_subscriptions_player_aoid`. -/
def MarketSubscription.key (s : MarketSubscription) : String × ℤ := (s.player, s.aoid)

structure Tables.Sound (t : Tables) : Prop where
  user_key : Keyed MarketUser.player t.users
  watch_key : Keyed MarketWatch.aoid t.watch
  sub_key : Keyed MarketSubscription.key t.subscriptions
  seen_key : t.seenOrders.Nodup
  alert_key : Keyed MarketPendingAlert.id t.pendingAlerts
  alert_serial : ∀ a ∈ t.pendingAlerts, a.id < t.nextAlertId
  hash_key : Keyed ApiKey.keyHash t.apiKeys
  api_key : Keyed ApiKey.id t.apiKeys
  api_serial : ∀ k ∈ t.apiKeys, k.id < t.nextKeyId
  backoff_key : Keyed AodbLookupBackoff.aoid t.lookupBackoff
  setting_key : Keyed Setting.key t.settings
  sub_player : Refers MarketSubscription.player t.subscriptions MarketUser.player t.users
  sub_aoid : Refers MarketSubscription.aoid t.subscriptions MarketWatch.aoid t.watch
  history_aoid : Refers MarketHistory.aoid t.history MarketWatch.aoid t.watch
  api_player : Refers ApiKey.player t.apiKeys MarketUser.player t.users

end AoMarket.Models
