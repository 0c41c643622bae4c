import AoMarket.MarketRepo

/-!
db/api_key_repo.py and auth/service.py. Only the hash of a token is stored; the
hash, with its pepper, is a parameter of the environment, and so are the tokens
drawn.
-/

namespace AoMarket.AuthService

open Coroutine Relational Models Database Environment MarketRepo

/-! ApiKeyRepo -/

def create (env : Env) (player keyHash keyPrefix : String) : M Unit :=
  statement env .createKey fun tick db => do
    let db ← orRefused (db.insertApiKey player keyHash keyPrefix (env.clock tick))
    return ((), db, [])

def activeKey (k : ApiKey) : Bool := k.revokedAt.isNone

def getByHash (env : Env) (keyHash : String) : M (Option ApiKey) :=
  query env .getKey fun _ db =>
    .ok (lookup ApiKey.keyHash keyHash (db.apiKeys.filter activeKey))

def revokeAllForPlayer (env : Env) (player : String) : M ℕ :=
  statement env .revokeKeys fun tick db => do
    text env player
    let selected (k : ApiKey) : Bool := k.player == player && activeKey k
    return ((db.apiKeys.filter selected).length,
      db.updateApiKeys selected (fun k => { k with revokedAt := some (env.clock tick) })
        fun _ => ⟨rfl, rfl, rfl⟩, [])

def listForPlayer (env : Env) (player : String) : M (List ApiKey) :=
  query env .listKeys fun _ db => do
    text env player
    return (db.apiKeys.filter fun k => k.player == player).insertionSort
      fun a b => b.createdAt ≤ a.createdAt

def touchLastUsed (env : Env) (keyId : ℕ) : M Unit :=
  statement env .touchKey fun tick db =>
    .ok ((), db.updateApiKeys (fun k => k.id == keyId)
      (fun k => { k with lastUsedAt := some (env.clock tick) }) fun _ => ⟨rfl, rfl, rfl⟩, [])

/-! AuthService -/

structure ApiKeyPrincipal where
  player : String
  isAdmin : Bool
deriving DecidableEq, Repr

def prefixLength : ℕ := 12

def generateToken (env : Env) : M String :=
  external .token fun tick => .ok ("aomk_" ++ env.token tick)

def tokenPrefix (raw : String) : String := String.ofList (raw.toList.take prefixLength)

def isAdminPlayer (env : Env) (player : String) : M Bool := do
  if env.ownerCharacter ≠ "" ∧ player = env.ownerCharacter then
    return true
  match ← getUser env player with
  | some user => return user.isAdmin
  | none => return false

def generateKey (env : Env) (player : String) : M String := do
  let registered ← isRegistered env player
  if !registered then
    register env player
  let _ ← revokeAllForPlayer env player
  let raw ← generateToken env
  create env player (env.hash raw) (tokenPrefix raw)
  return raw

def revokeKeys (env : Env) (player : String) : M ℕ := revokeAllForPlayer env player

def listKeys (env : Env) (player : String) : M (List ApiKey) := listForPlayer env player

def authenticate (env : Env) (rawToken : String) : M (Option ApiKeyPrincipal) := do
  match ← getByHash env (env.hash rawToken) with
  | none => return none
  | some key =>
    touchLastUsed env key.id
    let isAdmin ← isAdminPlayer env key.player
    return some { player := key.player, isAdmin := isAdmin }

end AoMarket.AuthService
