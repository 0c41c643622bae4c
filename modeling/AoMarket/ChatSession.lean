import AoMarket.Login
import AoMarket.Runner

/-!
The rest of aochat/client.py, and what bot/runner.py does with it: the coroutines of a
session that is logged in, over one connection and one client. A turn of a coroutine is
what it does between two awaits or less; a send that fails in its drain has written its
packet. A lookup is over when its task runs again, and by then its timer has fired if
nothing has resolved its future. The session is followed up to its stop().
-/

namespace AoMarket.ChatSession

open Coroutine Environment Packet Connection WireFormat ChatClient Login Runner

/-- `unread` is what the server has sent or will send, `dispatched` are the packets passed to
_dispatch so far, the first first; `tick` counts the turns of all coroutines. -/
structure Chat where
  client : Client := {}
  selected : Option CharacterInfo := none
  stopping : Bool := false
  unread : Bytes := []
  written : Bytes := []
  dispatched : List InboundPacket := []
  tick : ℕ := 0

/-- What surrounds a session, by turn: how a drain ends, whether the timer of a lookup has
fired before its task runs, and what the services of the bot answer a player's message. -/
structure Net where
  lower : String → String
  ending : Ending
  drained : ℕ → Except PyErr Unit
  expired : ℕ → Bool
  reply : ℕ → String → String → Except PyErr String

inductive ChatCall where
  | send (p : OutPacket)
  | lookup (name : String)
  | waitReply
  | read
  | reply
  | look
  | sleep

abbrev ChatM (α : Type) := Coro ChatCall Chat PyErr α

/-! The packets the client sends -/

def tellTo (charId : ℕ) (message : String) : OutPacket :=
  ⟨msgPrivate, [.int charId, .str message, .str "\x00"]⟩

def privgroupTo (gid : ℕ) (message : String) : OutPacket :=
  ⟨privgrpMessage, [.int gid, .str message, .str "\x00"]⟩

def buddyRequest (charId : ℕ) : OutPacket := ⟨buddyAdd, [.int charId, .str "\x01"]⟩

def lookupRequest (name : String) : OutPacket := ⟨clientLookup, [.str name]⟩

def keepalive : OutPacket := ⟨ping, [.str "aomarket-bot"]⟩

/-! Single calls -/

def look {α : Type} (f : Chat → α) : ChatM α :=
  Coro.act .look fun s => (.ok (f s), { s with tick := s.tick + 1 })

def sendPacket (net : Net) (p : OutPacket) : ChatM Unit :=
  Coro.act (.send p) fun s =>
    let (result, written) := Connection.sendPacket (net.drained s.tick) p.type p.args s.written
    (result, { s with written := written, tick := s.tick + 1 })

/-! The methods of the client -/

def sendTell (net : Net) (charId : ℕ) (message : String) : ChatM Unit :=
  sendPacket net (tellTo charId message)

def sendPrivgroup (net : Net) (gid : ℕ) (message : String) : ChatM Unit :=
  sendPacket net (privgroupTo gid message)

def addBuddy (net : Net) (charId : ℕ) : ChatM Unit := do
  if (← look fun s => s.selected.map CharacterInfo.id) = some charId then
    return ()
  sendPacket net (buddyRequest charId)

/-- `self._lookup_waiters.pop(key, None)`. -/
def leave (c : Client) (key : String) : Client :=
  { c with lookupWaiters := Function.update c.lookupWaiters key none }

/-- The request `p` of a lookup whose waiter has been filed in `client` under `key` with the
future `f`. A request that cannot be encoded ends the lookup at once. -/
def sendRequest (net : Net) (p : OutPacket) (key : String) (f : ℕ) (client : Client) (s : Chat) :
    Except PyErr (ℕ ⊕ (ℕ × Except PyErr Unit)) × Chat :=
  match Connection.sendPacket (.ok ()) p.type p.args s.written with
  | (.error e, _) =>
    (.error e, { s with client := leave client key, tick := s.tick + 1 })
  | (.ok (), written) =>
    (.ok (.inr (f, net.drained s.tick)),
      { s with client := client, written := written, tick := s.tick + 1 })

/-- lookup_user up to its first await: the cached id, or the future of the waiter it has
filed and how the drain of its request will end. -/
def beginLookup (net : Net) (name : String) : ChatM (ℕ ⊕ (ℕ × Except PyErr Unit)) :=
  Coro.act (.lookup name) fun s =>
    match s.client.beginLookup net.lower name with
    | .inl charId => (.ok (.inl charId), { s with tick := s.tick + 1 })
    | .inr (f, client) => sendRequest net (lookupRequest name) (net.lower name) f client s

/-- The rest of lookup_user, with its `finally`. -/
def waitReply (net : Net) (key : String) (f : ℕ) (drained : Except PyErr Unit) :
    ChatM (Option ℕ) :=
  Coro.act .waitReply fun s =>
    let left := { s with client := leave s.client key, tick := s.tick + 1 }
    match drained with
    | .error e => (.error e, left)
    | .ok () =>
      match s.client.futures f with
      | .done r => (.ok (if net.expired s.tick then none else r), left)
      | _ =>
        (.ok none, { left with client :=
          { left.client with futures := Function.update left.client.futures f .cancelled } })

def lookupUser (net : Net) (name : String) : ChatM (Option ℕ) := do
  match ← beginLookup net name with
  | .inl charId => return some charId
  | .inr (f, drained) => waitReply net (net.lower name) f drained

def sendTellByName (net : Net) (name message : String) : ChatM Unit := do
  match ← lookupUser net name with
  | some charId => sendTell net charId message
  | none => return ()

def isOnlineByName (net : Net) (name : String) : ChatM Bool := do
  match ← lookupUser net name with
  | none => return false
  | some charId =>
    addBuddy net charId
    look fun s => (s.client.buddyOnline charId).getD false

/-! The background tasks -/

def handleTell (net : Net) (charId : ℕ) (message : String) : ChatM Unit := do
  let player ← look fun s => playerName s.client.idToName charId
  let reply ← Coro.act .reply fun s =>
    (net.reply s.tick player message, { s with tick := s.tick + 1 })
  sendTell net charId reply

/-- One packet, read and passed to _dispatch up to the handler call; `none` when the
connection is gone. -/
def readTurn (net : Net) : ChatM (Option (Option Notice)) :=
  Coro.act .read fun s =>
    let next := { s with tick := s.tick + 1 }
    match readPacket net.ending s.unread with
    | .error .incompleteRead => (.ok none, next)
    | .error .connection => (.ok none, next)
    | .error e => (.error e, next)
    | .ok (pkt, unread) =>
      let read := { next with unread := unread, dispatched := s.dispatched ++ [pkt] }
      match dispatch net.lower s.client pkt with
      | .error e => (.error e, read)
      | .ok (client, notice) => (.ok (some notice), { read with client := client })

/-- MarketBot sets on_tell and no other callback. -/
def notify (net : Net) : Option Notice → ChatM Unit
  | some (.tell charId message) => handleTell net charId message
  | _ => return ()

def readLoop (net : Net) : ℕ → ChatM Unit
  | 0 => return ()
  | fuel + 1 => do
    if ← look Chat.stopping then
      return ()
    match ← readTurn net with
    | none => return ()
    | some notice =>
      notify net notice
      readLoop net fuel

/-- Whether the ping was sent; a lost connection is no exception. -/
def sendPing (net : Net) : ChatM Bool :=
  tryCatch (do
    sendPacket net keepalive
    return true)
  fun e => if e = .connection then return false else throw e

def keepaliveLoop (net : Net) : ℕ → ChatM Unit
  | 0 => return ()
  | fuel + 1 => do
    if ← look Chat.stopping then
      return ()
    Coro.act .sleep fun s => (.ok (), { s with tick := s.tick + 1 })
    if ← sendPing net then
      keepaliveLoop net fuel

def announce (net : Net) (message : String) : ChatM Unit := do
  match ← look fun s => s.selected.map CharacterInfo.id with
  | some gid => sendPrivgroup net gid message
  | none => return ()

/-! Whatever the tasks of the bot and the threads of the API ask for -/

inductive Job where
  | tell (charId : ℕ) (message : String)
  | tellByName (name message : String)
  | announce (message : String)
  | isOnline (name : String)
  | keepalive (turns : ℕ)
  | read (turns : ℕ)
deriving DecidableEq, Repr

/-- What a job returns, where that is a value. -/
abbrev Answer := Option Bool

def perform (net : Net) : Job → ChatM Answer
  | .tell charId message => do sendTell net charId message; return none
  | .tellByName name message => do sendTellByName net name message; return none
  | .announce message => do announce net message; return none
  | .isOnline name => do return some (← isOnlineByName net name)
  | .keepalive turns => do keepaliveLoop net turns; return none
  | .read turns => do readLoop net turns; return none

end AoMarket.ChatSession
