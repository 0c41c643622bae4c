import AoMarket.AodbBackoffRepo
import AoMarket.MarketService

/-! autotrack/scraper.py and MarketService.sync_top_traded_items: the ranked ids
of the pages, the lookups with their backoff, and the rows flagged from them. -/

namespace AoMarket.AutoTrack

open Coroutine PyNumber PyText Regex Environment MarketRepo AodbBackoffRepo SettingsRepo
  MarketService

/-- `class="item-name"\s+href="/item/([0-9]+)"`. -/
def itemLinkRe : Re :=
  let quote := String.singleton (Char.ofNat 34)
  .all [word ("class=" ++ quote ++ "item-name" ++ quote), space.plus,
    word ("href=" ++ quote ++ "/item/"), .group 1 digit.plus, word quote]

def extractAoids (py : Runtime) (html : String) : Except PyErr (List ℤ) :=
  (itemLinkRe.findAll html.length html.toList).mapM fun gs =>
    let digits := (groupOf gs 1).getD ""
    match parseInt py.decimal digits with
    | some n => .ok n
    | none => .error (.value (intError py digits))

def maxAutotrackPages : ℤ := 50

/-- `min(_MAX_AUTOTRACK_PAGES, math.ceil(count / 20))`. -/
def pageCount (count : ℤ) : Except PyErr ℕ :=
  match double (count / 20) with
  | some x => .ok (min maxAutotrackPages ⌈x⌉).toNat
  | none => .error .overflow

def rstripSlash (s : String) : String :=
  String.ofList (s.toList.reverse.dropWhile fun c => c = '/').reverse

def addNew (aoids : List ℤ) : List ℤ → List ℤ
  | [] => aoids
  | a :: rest => addNew (if a ∈ aoids then aoids else aoids ++ [a]) rest

/-- The loop over the pages; returns the pages fetched and the ids found. -/
def fetchPages (env : Env) (sourceUrl : String) (count : ℤ) :
    List ℕ → ℕ → List ℤ → M (ℕ × List ℤ)
  | [], fetched, aoids => pure (fetched, aoids)
  | page :: rest, fetched, aoids => do
    let url := s!"{rstripSlash sourceUrl}/items/{page}"
    match ← external .fetchPage fun tick => env.fetchPage tick url with
    | none => return (fetched, aoids)
    | some html =>
      let found ← Coro.ofExcept (extractAoids env.py html)
      if found = [] then
        return (fetched, aoids)
      let aoids := addNew aoids found
      if count ≤ aoids.length then
        return (fetched + 1, aoids)
      fetchPages env sourceUrl count rest (fetched + 1) aoids

/-- `asyncio.gather` of the lookups; the first to raise ends it. -/
def lookupItems (env : Env) (aoids : List ℤ) : M (List (ℤ × Option Item)) :=
  aoids.mapM fun aoid => do
    return (aoid, ← getItem env aoid)

def recordLookups (env : Env) : List (ℤ × Option Item) → M (List (ℤ × Item))
  | [] => pure []
  | (aoid, none) :: rest => do
    recordFailure env aoid
    recordLookups env rest
  | (aoid, some item) :: rest => do
    recordSuccess env aoid
    return (aoid, item) :: (← recordLookups env rest)

def resolveItems (env : Env) (aoids : List ℤ) : M (List (ℤ × Item)) := do
  if aoids = [] then
    return []
  let dueAoids := env.idOrder (← dueForRetry env aoids)
  recordLookups env (← lookupItems env dueAoids)

def trackResolved (env : Env) (existing : List ℤ) : List (ℤ × Item) → M Unit
  | [] => pure ()
  | (aoid, item) :: rest => do
    let _ ← upsertWatch env aoid item.name item.ql item.icon true
    if !existing.contains aoid then
      announceTracked env item.name true
    trackResolved env existing rest

structure AutoTrackSummary where
  pagesFetched : ℕ
  rankedCount : ℕ
  resolvedCount : ℕ
deriving DecidableEq, Repr

def trackRanked (env : Env) (pagesFetched : ℕ) (aoids : List ℤ) : M AutoTrackSummary := do
  let resolved ← resolveItems env aoids
  let keys := resolved.map Prod.fst
  unflagAutotrackNotIn env keys
  let existing ← existingAoids env keys
  trackResolved env existing resolved
  let now ← external .clock fun tick => .ok (env.clock tick)
  set env "AutoTrackLastSync" (.int (now / 1000000))
  announceBackground env
    (s!"Resync complete: {pagesFetched} page(s) fetched, {aoids.length} ranked AOID(s) found, " ++
      s!"{resolved.length} resolved against aodb-api and now auto-tracked")
  return { pagesFetched := pagesFetched, rankedCount := aoids.length,
           resolvedCount := resolved.length }

def syncTopTradedItems (env : Env) : M (Option AutoTrackSummary) := do
  if !(← getBool env "AutoTrackEnabled") then
    return none
  let count ← getInt env "AutoTrackCount"
  if count < 1 then
    return none
  let pages ← Coro.ofExcept (pageCount count)
  let sourceUrl := rstripSlash (← getStr env "AutoTrackSourceUrl")
  let (pagesFetched, aoids) ←
    fetchPages env sourceUrl count ((List.range pages).map (· + 1)) 0 []
  if pagesFetched = 0 then
    return none
  return some (← trackRanked env pagesFetched (aoids.take count.toNat))

end AoMarket.AutoTrack
